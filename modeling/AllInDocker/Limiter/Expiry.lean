import AllInDocker.Limiter.Bans

/-!
What a run of the limiter leaves behind, with any commands failing.

A counter is created without a deadline, and only the request that saw it created sends the
`EXPIRE`. As long as no such request is lost on the way (`Event.KeepsExpiry`) the invariant
`Bounded` holds: a counter without a deadline has a request about to give it one, every other
deadline of a counter is at most a second away, and that of a block key at most 600 s.

* `drains`: when all requests have ended, every counter expires within a second, and after
  600 s nothing is left and the next request is counted as the first, whatever fails then.
* `immortal_counter`: the reply of one `INCR` lost leaves a counter for ever.
-/

namespace AllInDocker

/-- Neither the `INCR` that creates a counter loses its reply, nor does an `EXPIRE` fail to
reach the server. -/
def Event.KeepsExpiry (e : Event) : Prop :=
  (e.created = true → e.link.delivers = true) ∧ (e.cmd.name = .expire → e.link.reaches = true)

instance (e : Event) : Decidable e.KeepsExpiry := inferInstanceAs (Decidable (_ ∧ _))

/-- How many commands are still to come, at most. -/
def Phase.left : Phase → ℕ
  | check _ ks => ks.length + 3
  | count => 2
  | expire => 1
  | ban _ ks => ks.length + 1
  | ended _ => 0

lemma Phase.left_checks (ks : List String) : (checks ks).left = ks.length + 2 := by
  cases ks <;> rfl

/-- All requests have ended. -/
def Sys.Quiet {P : Type} [Stages P] (σ : Sys P) : Prop :=
  ∀ p ∈ σ.procs, (Stages.outcome p.prog).isSome

instance {P : Type} [Stages P] (σ : Sys P) : Decidable σ.Quiet :=
  inferInstanceAs (Decidable (∀ p ∈ σ.procs, _))

namespace Sys

variable {σ : Sys Phase} {i : ℕ} {p : Proc Phase} {e : Event} {s : Store} {ph : Phase}

/-- Every deadline is near, and where there is none a request is about to set it. -/
structure Bounded (σ : Sys Phase) : Prop where
  placed : ∀ (i : ℕ) (p : Proc Phase), σ.procs[i]? = some p → p.prog.Placed p.req.limits
  awaited : ∀ v en, σ.store (counterKey v) = some en → en.deadline = none →
    ∃ (i : ℕ) (p : Proc Phase), σ.procs[i]? = some p ∧ p.prog = .expire ∧
      p.req.limits.incrKey = counterKey v
  counter : ∀ v en, σ.store (counterKey v) = some en → ∀ y ∈ en.deadline, y ≤ σ.now + 1
  block : ∀ b, IsBlockKey b → ∀ en, σ.store b = some en →
    ∃ y, en.deadline = some y ∧ y ≤ σ.now + 600

/-- A counter without a deadline after a command: it has just been created, or it had none
before and the request was not the one to give it one. -/
def Unset (σ : Sys Phase) (p : Proc Phase) (ph : Phase) (v : String) : Prop :=
  (ph = .expire ∧ p.req.limits.incrKey = counterKey v) ∨
    (∃ en, σ.store (counterKey v) = some en ∧ en.deadline = none) ∧
      ¬ (p.prog = .expire ∧ p.req.limits.incrKey = counterKey v)

/-- A command of a request, with the store written out. -/
lemma fire_next_eq {link : Link} {c : Command} :
    (σ.fire i p.req link c fun r => p.prog.next p.req.limits r.1) =
      σ.after i p.req (σ.event i p.req link c)
        (if link.reaches then (σ.store.exec σ.now c).1 else σ.store)
        (p.prog.next p.req.limits (through link σ.now σ.store c).2.1) := by
  rw [← through_store]
  rfl

lemma Bounded.after (h : Bounded σ) (hi : σ.procs[i]? = some p)
    (hpl : ph.Placed p.req.limits)
    (hcounter : ∀ v en, s (counterKey v) = some en →
      (∀ y ∈ en.deadline, y ≤ σ.now + 1) ∧ (en.deadline = none → Unset σ p ph v))
    (hblock : ∀ b, IsBlockKey b → ∀ en, s b = some en →
      ∃ y, en.deadline = some y ∧ y ≤ σ.now + 600) :
    Bounded (σ.after i p.req e s ph) where
  placed j q hj := by
    rw [after_procs hi] at hj
    split_ifs at hj with hij
    · obtain rfl := Option.some.inj hj
      exact hpl
    · exact h.placed j q hj
  awaited v en hen hnone := by
    rcases (hcounter v en hen).2 hnone with ⟨hph, hkey⟩ | ⟨⟨en', hen', hnone'⟩, hother⟩
    · exact ⟨i, ⟨p.req, ph⟩, by rw [after_procs hi, if_pos rfl], hph, hkey⟩
    · obtain ⟨j, q, hj, hq, hkey⟩ := h.awaited v en' hen' hnone'
      refine ⟨j, q, ?_, hq, hkey⟩
      rw [after_procs hi, if_neg]
      · exact hj
      · -- the request about to set the deadline is another one
        rintro rfl
        rw [hi, Option.some.injEq] at hj
        subst hj
        exact hother ⟨hq, hkey⟩
  counter v en hen := (hcounter v en hen).1
  block := hblock

/-- A command that does not change the store, issued by a request that is not about to set a
deadline. -/
lemma Bounded.after_same (h : Bounded σ) (hi : σ.procs[i]? = some p)
    (hpl : ph.Placed p.req.limits) (hne : p.prog ≠ .expire) :
    Bounded (σ.after i p.req e σ.store ph) := by
  refine h.after hi hpl (fun v en hen => ⟨h.counter v en hen, fun hnone => ?_⟩) h.block
  exact Or.inr ⟨⟨en, hen, hnone⟩, fun hp => hne hp.1⟩

/-- A command that writes the counter of the request. -/
lemma Bounded.after_put (h : Bounded σ) (hi : σ.procs[i]? = some p)
    (hpl : ph.Placed p.req.limits) {en : Entry RedisVal Time}
    (hnear : ∀ y ∈ en.deadline, y ≤ σ.now + 1)
    (hunset : en.deadline = none → Unset σ p ph p.req.identity.2) :
    Bounded (σ.after i p.req e (σ.store.put p.req.limits.incrKey en) ph) := by
  have hown := p.req.limits_incrKey
  refine h.after hi hpl (fun v en' hen' => ?_) fun b hb en' hen' => ?_
  · by_cases hv : v = p.req.identity.2
    · rw [hv, ← hown, TimedStore.put_self, Option.some.injEq] at hen'
      subst hen' hv
      exact ⟨hnear, hunset⟩
    · have hne : counterKey v ≠ p.req.limits.incrKey := by
        rw [hown]
        exact fun heq => hv (counterKey_inj.mp heq)
      rw [TimedStore.put_of_ne _ hne] at hen'
      exact ⟨h.counter v en' hen', fun hnone => Or.inr ⟨⟨en', hen', hnone⟩, fun hp =>
        hne hp.2.symm⟩⟩
  · rw [TimedStore.put_of_ne] at hen'
    · exact h.block b hb en' hen'
    · rw [hown]
      exact (counterKey_ne_of_isBlockKey hb).symm

/-- The count of a request. -/
lemma Bounded.count {link : Link} (h : Bounded σ) (hi : σ.procs[i]? = some p)
    (hp : p.prog = .count)
    (hkeep : (σ.event i p.req link (.incr p.req.limits.incrKey)).KeepsExpiry) :
    Bounded (σ.fire i p.req link (.incr p.req.limits.incrKey) fun r =>
      p.prog.next p.req.limits r.1) := by
  have hpl := (h.placed i p hi).next
    (through link σ.now σ.store (.incr p.req.limits.incrKey)).2.1
  have hne : p.prog ≠ .expire := by simp [hp]
  rw [fire_next_eq]
  split_ifs with hreach
  · rcases Store.exec_incr_store σ.store σ.now p.req.limits.incrKey with
      heq | ⟨hk, heq⟩ | ⟨n, d, hk, heq⟩
    · rw [heq]
      exact h.after_same hi hpl hne
    · -- created: its reply arrives, so the request goes on to the `EXPIRE`
      rw [heq]
      refine h.after_put hi hpl (by simp) fun _ => Or.inl ⟨?_, p.req.limits_incrKey⟩
      have hdel : link.delivers = true :=
        hkeep.1 (by simp [event, hreach, creates, Command.incr, hk])
      cases link with
      | up m =>
          rw [through_up, Store.exec_incr_of_none hk, hp]
          rfl
      | _ => simp [Link.delivers] at hdel
    · -- counted on: the deadline, or its absence, is the old one
      rw [heq]
      obtain ⟨hraw, -⟩ := TimedStore.lookup_eq_some_iff.mp hk
      rw [p.req.limits_incrKey] at hraw
      exact h.after_put hi hpl (fun y hy => h.counter _ _ hraw y hy) fun hnone =>
        Or.inr ⟨⟨_, hraw, hnone⟩, fun hexp => hne hexp.1⟩
  · exact h.after_same hi hpl hne

/-- The `EXPIRE` of a request. -/
lemma Bounded.expire {link : Link} (h : Bounded σ) (hi : σ.procs[i]? = some p)
    (hreach : link.reaches = true) :
    Bounded (σ.fire i p.req link (.expire p.req.limits.incrKey 1) fun r =>
      p.prog.next p.req.limits r.1) := by
  have hpl := (h.placed i p hi).next
    (through link σ.now σ.store (.expire p.req.limits.incrKey 1)).2.1
  have hown := p.req.limits_incrKey
  rw [fire_next_eq, if_pos hreach]
  cases hk : σ.store.lookup σ.now p.req.limits.incrKey with
  | none =>
      -- the counter is gone already, so its deadline had been set
      rw [Store.exec_expire_of_none hk]
      dsimp only
      refine h.after hi hpl (fun v en hen => ⟨h.counter v en hen, fun hnone => ?_⟩) h.block
      refine Or.inr ⟨⟨en, hen, hnone⟩, fun hexp => ?_⟩
      rw [hexp.2, TimedStore.lookup_eq_none_iff, hen] at hk
      simp [hnone] at hk
  | some en =>
      rw [Store.exec_expire_of_some hk]
      exact h.after_put hi hpl (by simp) (by simp)

/-- A ban of a request. -/
lemma Bounded.ban {link : Link} {k : String} {ks : List String} (h : Bounded σ)
    (hi : σ.procs[i]? = some p) (hp : p.prog = .ban k ks) :
    Bounded (σ.fire i p.req link (.setEx k 1 banExpire) fun r =>
      p.prog.next p.req.limits r.1) := by
  have hpl := (h.placed i p hi).next
    (through link σ.now σ.store (.setEx k 1 banExpire)).2.1
  have hne : p.prog ≠ .expire := by simp [hp]
  have hplaced := h.placed i p hi
  rw [hp] at hplaced
  rw [fire_next_eq]
  split_ifs with hreach
  · rw [Store.exec_setEx (by norm_num [banExpire])]
    dsimp only
    refine h.after hi hpl (fun v en hen => ?_) fun b hb en hen => ?_
    · rw [TimedStore.put_of_ne _ (counterKey_ne_of_placed hplaced v)] at hen
      exact ⟨h.counter v en hen, fun hnone => Or.inr ⟨⟨en, hen, hnone⟩, fun hexp => hne hexp.1⟩⟩
    · by_cases hbk : b = k
      · subst hbk
        rw [TimedStore.put_self, Option.some.injEq] at hen
        subst hen
        exact ⟨_, rfl, le_of_eq (by norm_num [banExpire])⟩
      · rw [TimedStore.put_of_ne _ hbk] at hen
        exact h.block b hb en hen
  · exact h.after_same hi hpl hne

/-- Any command, over any link. -/
lemma Bounded.fire {link : Link} {c : Command} (h : Bounded σ) (hi : σ.procs[i]? = some p)
    (hc : p.prog.cmd p.req.limits = some c)
    (hkeep : (σ.event i p.req link c).KeepsExpiry) :
    Bounded (σ.fire i p.req link c fun r => p.prog.next p.req.limits r.1) := by
  cases hp : p.prog with
  | check k ks =>
      rw [hp, Phase.cmd, Option.some.injEq] at hc
      subst hc
      have hpl := (h.placed i p hi).next (through link σ.now σ.store (.get k)).2.1
      rw [← hp, fire_next_eq, Store.exec_get_store, ite_self]
      exact h.after_same hi hpl (by simp [hp])
  | count =>
      rw [hp, Phase.cmd, Option.some.injEq] at hc
      subst hc
      exact hp ▸ h.count hi hp hkeep
  | expire =>
      rw [hp, Phase.cmd, Option.some.injEq] at hc
      subst hc
      exact hp ▸ h.expire hi (hkeep.2 rfl)
  | ban k ks =>
      rw [hp, Phase.cmd, Option.some.injEq] at hc
      subst hc
      exact hp ▸ h.ban hi hp
  | ended o => simp [hp, Phase.cmd] at hc

/-- One action, if no request loses the chance to set a deadline by it. -/
lemma Bounded.step (h : Bounded σ) {a : Action}
    (hkeep : ∀ e ∈ (σ.step a).log, e.KeepsExpiry) : Bounded (σ.step a) := by
  cases a with
  | arrive req =>
      refine ⟨fun i p hi => ?_, fun v en hen hnone => ?_, h.counter, h.block⟩
      · rcases of_arrive hi with hi | rfl
        · exact h.placed i p hi
        · exact Phase.placed_checks (List.suffix_refl _)
      · obtain ⟨j, q, hj, hq⟩ := h.awaited v en hen hnone
        refine ⟨j, q, ?_, hq⟩
        exact (List.getElem?_append_left (List.getElem?_eq_some_iff.mp hj).1).trans hj
  | wait d =>
      have hd : (0 : ℚ) ≤ d := d.2
      refine ⟨h.placed, h.awaited, fun v en hen y hy => ?_, fun b hb en hen => ?_⟩
      · have := h.counter v en hen y hy
        simp only [Sys.step]
        linarith
      · obtain ⟨y, hy, hle⟩ := h.block b hb en hen
        refine ⟨y, hy, ?_⟩
        simp only [Sys.step]
        linarith
  | exec i link =>
      simp only [Sys.step] at hkeep ⊢
      cases hi : σ.procs[i]? with
      | none => exact h
      | some p =>
          cases hc : p.prog.cmd p.req.limits with
          | none =>
              simp only [Stages.pending, hc, Option.map_none]
              exact h
          | some c =>
              simp only [hi, Stages.pending, hc, Option.map_some] at hkeep ⊢
              exact h.fire hi hc (hkeep _ (List.mem_cons_self ..))

/-- A run in which no request loses the chance to set a deadline. -/
lemma bounded_run {acts : List Action}
    (hkeep : ∀ e ∈ (run acts : Sys Phase).log, e.KeepsExpiry) : Bounded (run acts) := by
  induction acts using List.reverseRecOn with
  | nil => exact ⟨by simp [run_nil, init], by simp [run_nil, init, TimedStore.empty],
      by simp [run_nil, init, TimedStore.empty], by simp [run_nil, init, TimedStore.empty]⟩
  | append_singleton acts a ih =>
      rw [run_concat] at hkeep ⊢
      exact (ih fun e he => hkeep e ((log_suffix_step _ a).subset he)).step hkeep

/-! ### Quiet states -/

/-- No key of the limiter is there. -/
def Clear {P : Type} (σ : Sys P) : Prop :=
  (∀ v, σ.store.lookup σ.now (counterKey v) = none) ∧
    ∀ b, IsBlockKey b → σ.store.lookup σ.now b = none

/-- When all requests have ended every counter has a deadline. -/
lemma Bounded.deadline_of_quiet (h : Bounded σ) (hquiet : σ.Quiet) {v : String}
    {en : Entry RedisVal Time} (hen : σ.store (counterKey v) = some en) :
    ∃ y, en.deadline = some y ∧ y ≤ σ.now + 1 := by
  cases hd : en.deadline with
  | none =>
      obtain ⟨i, p, hi, hp, -⟩ := h.awaited v en hen hd
      have hout := hquiet p (List.mem_of_getElem? hi)
      simp [hp, Stages.outcome] at hout
  | some y => exact ⟨y, rfl, h.counter v en hen y hd⟩

/-- A key whose entry has a deadline within 600 s is gone after more than that time. -/
lemma lookup_wait_eq_none {k : String} {d : ℚ≥0} (hd : 600 < d)
    (hk : ∀ en, σ.store k = some en → ∃ y, en.deadline = some y ∧ y ≤ σ.now + 600) :
    (σ.step (.wait d)).store.lookup (σ.step (.wait d)).now k = none := by
  have hd' : (600 : ℚ) < d := by exact_mod_cast hd
  cases hen : σ.store k with
  | none => exact TimedStore.lookup_eq_none_iff.mpr (Or.inl hen)
  | some en =>
      obtain ⟨y, hy, hle⟩ := hk en hen
      refine TimedStore.lookup_eq_none_of_deadline hen hy ?_
      simp only [Sys.step]
      linarith

/-- And after more than 600 s nothing is left. -/
lemma Bounded.clear_of_quiet (h : Bounded σ) (hquiet : σ.Quiet) {d : ℚ≥0} (hd : 600 < d) :
    Clear (σ.step (.wait d)) := by
  refine ⟨fun v => lookup_wait_eq_none hd fun en hen => ?_,
    fun b hb => lookup_wait_eq_none hd (h.block b hb)⟩
  obtain ⟨y, hy, hle⟩ := h.deadline_of_quiet hquiet hen
  exact ⟨y, hy, by linarith⟩

/-! ### The first request after a quiet time -/

/-- The places of a request that finds no key: it checks and finds nothing, or it has counted
as the first, or a lost answer has ended it. -/
inductive FirstPlace (i : ℕ) (req : Request) (links : List Link) (σ : Sys Phase) :
    Phase → Prop where
  | checking {ks : List String} (hks : ks <:+ req.limits.blockKeys) (hclear : σ.Clear) :
      FirstPlace i req links σ (.checks ks)
  | expiring {e : Event} (he : e ∈ σ.log) (hid : e.id = i) (hincr : e.IsIncr)
      (hone : e.answer = .num 1) : FirstPlace i req links σ .expire
  | passed {e : Event} (he : e ∈ σ.log) (hid : e.id = i) (hincr : e.IsIncr)
      (hone : e.answer = .num 1) : FirstPlace i req links σ (.ended (.ok ()))
  | lost {link : Link} (hlink : link ∈ links) (hdel : link.delivers = false) :
      FirstPlace i req links σ (.ended (.error .luaError))

/-- Request `i` came first and has issued its commands over `links`. -/
structure First (i : ℕ) (req : Request) (links : List Link) (σ : Sys Phase) : Prop where
  place : ∃ ph, σ.procs[i]? = some ⟨req, ph⟩ ∧ FirstPlace i req links σ ph ∧
    ph.left ≤ req.limits.blockKeys.length + 2 - links.length
  log : ∀ e ∈ σ.log, e.id = i →
    (e.IsIncr → e.link.delivers = true → e.answer = .num 1) ∧ e.cmd.name ≠ .set

/-- A command of the first request, with what it has to satisfy. -/
lemma First.after {req : Request} {links : List Link} {link : Link} {c : Command}
    {k : LuaVal × Option String → Phase} (h : First i req links σ)
    (hi : σ.procs[i]? = some ⟨req, ph⟩)
    (hplace : FirstPlace i req (links ++ [link]) (σ.fire i req link c k)
      (k (through link σ.now σ.store c).2))
    (hleft : (k (through link σ.now σ.store c).2).left ≤
      req.limits.blockKeys.length + 2 - (links.length + 1))
    (hc : (c.name = .incr → link.delivers = true →
      (through link σ.now σ.store c).2.1 = .num 1) ∧ c.name ≠ .set) :
    First i req (links ++ [link]) (σ.fire i req link c k) := by
  refine ⟨⟨_, ?_, hplace, by simpa using hleft⟩, ?_⟩
  · exact (after_procs hi req i).trans (if_pos rfl)
  · exact List.forall_mem_cons.mpr ⟨fun _ => hc, h.log⟩

/-- The first request finds no block key. -/
lemma First.check {req : Request} {links : List Link} {b : String} {ks : List String}
    (h : First i req links σ) (hi : σ.procs[i]? = some ⟨req, .check b ks⟩) (hclear : σ.Clear)
    (hks : b :: ks <:+ req.limits.blockKeys)
    (hleft : (Phase.check b ks).left ≤ req.limits.blockKeys.length + 2 - links.length)
    (link : Link) :
    First i req (links ++ [link]) (σ.fire i req link (.get b) fun r =>
      Phase.next req.limits (.check b ks) r.1) := by
  have hb : IsBlockKey b := req.isBlockKey_of_mem (hks.subset (List.mem_cons_self ..))
  have hnext : Phase.next req.limits (.check b ks) (through link σ.now σ.store (.get b)).2.1 =
      .checks ks := by
    cases hdel : link.delivers with
    | false => exact Phase.next_check_of_lost (through_value _ _ _ hdel) b ks
    | true =>
        obtain ⟨n, rfl⟩ := Link.delivers_iff.mp hdel
        rw [through_up, Store.exec_get_of_none (hclear.2 b hb)]
        simp [directResult, Reply.entry, isRedisNull, Phase.next]
  refine h.after hi ?_ ?_ (by simp [Command.get])
  · simp only [hnext]
    refine .checking ((List.suffix_cons b ks).trans hks) ?_
    have hstore : (σ.fire i req link (.get b) fun r =>
        Phase.next req.limits (.check b ks) r.1).store = σ.store := by
      simp [Sys.fire, through_store]
    rw [Clear, hstore]
    exact hclear
  · simp only [hnext, Phase.left_checks]
    simp only [Phase.left] at hleft
    omega

/-- The first request counts to one. -/
lemma First.count {req : Request} {links : List Link} (h : First i req links σ)
    (hi : σ.procs[i]? = some ⟨req, .count⟩) (hclear : σ.Clear)
    (hleft : Phase.count.left ≤ req.limits.blockKeys.length + 2 - links.length) (link : Link) :
    First i req (links ++ [link]) (σ.fire i req link (.incr req.limits.incrKey) fun r =>
      Phase.next req.limits .count r.1) := by
  have hkey : σ.store.lookup σ.now req.limits.incrKey = none := by
    rw [req.limits_incrKey]
    exact hclear.1 _
  cases hdel : link.delivers with
  | false =>
      have hnext := Phase.next_count_of_lost (L := req.limits)
        (through_value σ.now σ.store (.incr req.limits.incrKey) hdel)
      refine h.after hi ?_ ?_ ⟨fun _ hdel' => ?_, by simp [Command.incr]⟩
      · simp only [hnext]
        exact .lost (List.mem_append_right _ (List.mem_singleton_self link)) hdel
      · simp [hnext, Phase.left]
      · exact absurd hdel' (by simp [hdel])
  | true =>
      obtain ⟨n, rfl⟩ := Link.delivers_iff.mp hdel
      have hanswer : (through (.up n) σ.now σ.store (.incr req.limits.incrKey)).2.1 = .num 1 := by
        rw [through_up, Store.exec_incr_of_none hkey]
        rfl
      refine h.after hi ?_ ?_ ⟨fun _ _ => hanswer, by simp [Command.incr]⟩
      · simp only [hanswer]
        exact .expiring (List.mem_cons_self ..) rfl rfl hanswer
      · simp only [hanswer]
        simp only [Phase.left] at hleft
        simp only [Phase.next, LuaVal.eqNum_num, Phase.left]
        norm_num
        omega

/-- The first request gives its counter a deadline and is not over the limit. -/
lemma First.expire {req : Request} {links : List Link} (h : First i req links σ)
    (hi : σ.procs[i]? = some ⟨req, .expire⟩) {e : Event} (he : e ∈ σ.log) (hid : e.id = i)
    (hincr : e.IsIncr) (hone : e.answer = .num 1) (link : Link) :
    First i req (links ++ [link]) (σ.fire i req link (.expire req.limits.incrKey 1) fun r =>
      Phase.next req.limits .expire r.1) := by
  cases hdel : link.delivers with
  | false =>
      have hnext := Phase.next_expire_of_lost (L := req.limits)
        (through_value σ.now σ.store (.expire req.limits.incrKey 1) hdel)
      refine h.after hi ?_ ?_ (by simp [Command.expire])
      · simp only [hnext]
        exact .lost (List.mem_append_right _ (List.mem_singleton_self link)) hdel
      · simp [hnext, Phase.left]
  | true =>
      obtain ⟨n, rfl⟩ := Link.delivers_iff.mp hdel
      have hnext : Phase.next req.limits .expire
          (through (.up n) σ.now σ.store (.expire req.limits.incrKey 1)).2.1 =
          .ended (.ok ()) := by
        obtain ⟨m, hm, hreply⟩ := @Store.exec_expire_reply σ.store σ.now
          req.limits.incrKey 1
        rw [through_up, hreply]
        exact Phase.judge_of_le_one req hm
      refine h.after hi ?_ ?_ (by simp [Command.expire])
      · simp only [hnext]
        exact .passed (List.mem_cons_of_mem _ he) hid hincr hone
      · simp [hnext, Phase.left]

lemma First.exec {req : Request} {links : List Link} (h : First i req links σ) (link : Link) :
    First i req (links ++ [link]) (σ.step (.exec i link)) := by
  obtain ⟨ph, hi, hplace, hleft⟩ := h.place
  simp only [Sys.step, hi]
  cases hplace with
  | @checking ks hks hclear =>
      cases ks with
      | nil => exact h.count hi hclear hleft link
      | cons b ks => exact h.check hi hclear hks hleft link
  | expiring he hid hincr hone => exact h.expire hi he hid hincr hone link
  | passed he hid hincr hone =>
      exact ⟨⟨_, hi, .passed he hid hincr hone, by simp [Phase.left]⟩, h.log⟩
  | lost hlink hdel =>
      exact ⟨⟨_, hi, .lost (List.mem_append_left _ hlink) hdel, by simp [Phase.left]⟩, h.log⟩

/-- The commands of the first request, over any links. -/
lemma First.execs {req : Request} (h : First i req [] σ) (links : List Link) :
    First i req links ((links.map (Action.exec i)).foldl Sys.step σ) := by
  induction links using List.reverseRecOn with
  | nil => exact h
  | append_singleton links link ih =>
      rw [List.map_append, List.foldl_append]
      exact ih.exec link

/-- Every event belongs to a request that has arrived. -/
lemma id_lt_of_run (acts : List Action) :
    ∀ e ∈ (run acts : Sys Phase).log, e.id < (run acts : Sys Phase).procs.length := by
  induction acts using List.reverseRecOn with
  | nil => simp [run_nil, init]
  | append_singleton acts a ih =>
      rw [run_concat]
      cases a with
      | arrive req => exact fun e he => (ih e he).trans_le (by simp [Sys.step])
      | wait d => exact ih
      | exec i link =>
          simp only [Sys.step]
          cases hi : (run acts : Sys Phase).procs[i]? with
          | none => exact ih
          | some p =>
              cases hc : Stages.pending p.req p.prog with
              | none => simpa only [hc] using ih
              | some ck =>
                  simp only [hc]
                  intro e he
                  simp only [Sys.fire, List.length_set]
                  rcases List.mem_cons.mp he with rfl | he
                  · exact (List.getElem?_eq_some_iff.mp hi).1
                  · exact ih e he

/-- A request that arrives when no key is there is the first. -/
lemma first_arrive {acts : List Action} (hclear : (run acts : Sys Phase).Clear) (req : Request) :
    First (run acts : Sys Phase).procs.length req [] (run (acts ++ [.arrive req])) := by
  rw [run_concat]
  refine ⟨⟨_, ?_, .checking (List.suffix_refl _) hclear, ?_⟩, fun e he hid => ?_⟩
  · simp [Sys.step, Stages.start]
  · simp [Phase.left_checks]
  · have := id_lt_of_run acts e he
    omega

end Sys

/-! ### Every run -/

lemma limiter_quiet {acts : List Action} :
    (limiter acts).Quiet ↔ (Sys.run acts : Sys Phase).Quiet := by
  have hout : ∀ p : Proc Phase, Stages.outcome (p.prog.prog p.req.limits) =
      Stages.outcome p.prog := fun p => represents_prog.outcome p.req p.prog
  rw [limiter_eq_map]
  simp only [Sys.Quiet, Sys.map, List.forall_mem_map, hout]

lemma limiter_clear {acts : List Action} :
    (limiter acts).Clear ↔ (Sys.run acts : Sys Phase).Clear := by
  rw [limiter_eq_map]
  rfl

lemma limiter_procs_length (acts : List Action) :
    (limiter acts).procs.length = (Sys.run acts : Sys Phase).procs.length := by
  rw [limiter_eq_map]
  simp [Sys.map]

/-- The limiter forgets: let all requests of a run have ended, and none have lost the chance
to set a deadline. Then every counter has a deadline at most a second away. After more than
600 s no key is left, and the next request, whatever links its commands use, is counted as
the first, is not refused and bans nobody; it passes if all its commands are delivered. -/
theorem drains (acts : List Action) (hkeep : ∀ e ∈ (limiter acts).log, e.KeepsExpiry)
    (hquiet : (limiter acts).Quiet) :
    (∀ v en, (limiter acts).store.lookup (limiter acts).now (counterKey v) = some en →
      ∃ y, en.deadline = some y ∧ y ≤ (limiter acts).now + 1) ∧
    ∀ d : ℚ≥0, 600 < d → (limiter (acts ++ [.wait d])).Clear ∧
      ∀ (req : Request) (links : List Link) (i : ℕ) (σ : Sys CommandProg),
        i = (limiter acts).procs.length →
        σ = limiter (acts ++ [.wait d, .arrive req] ++ links.map (.exec i)) →
        (∀ e ∈ σ.log, e.id = i →
          (e.IsIncr → e.link.delivers = true → e.answer = .num 1) ∧ e.cmd.name ≠ .set) ∧
        σ.endedWith i ≠ some (.error (.exit 403)) ∧
        ((∀ link ∈ links, link.delivers = true) →
          req.limits.blockKeys.length + 2 ≤ links.length →
          σ.endedWith i = some (.ok ()) ∧ ∃ e ∈ σ.log, e.id = i ∧ e.IsIncr ∧
            e.answer = .num 1) := by
  rw [limiter_quiet] at hquiet
  simp only [limiter_log] at hkeep
  have hbounded := Sys.bounded_run hkeep
  refine ⟨fun v en hen => ?_, fun d hd => ?_⟩
  · rw [limiter_store, limiter_now] at hen
    rw [limiter_now]
    exact hbounded.deadline_of_quiet hquiet (TimedStore.lookup_eq_some_iff.mp hen).1
  have hclear : (Sys.run (acts ++ [.wait d]) : Sys Phase).Clear := by
    rw [Sys.run_concat]
    exact hbounded.clear_of_quiet hquiet hd
  refine ⟨limiter_clear.mpr hclear, ?_⟩
  rintro req links i σ hi rfl
  have hlen : i = (Sys.run (acts ++ [.wait d]) : Sys Phase).procs.length := by
    rw [hi, limiter_procs_length, Sys.run_concat]
    rfl
  have hfirst := (Sys.first_arrive hclear req).execs links
  rw [← hlen, ← Sys.run_append, List.append_assoc acts] at hfirst
  simp only [limiter_log, limiter_endedWith]
  obtain ⟨ph, hph, hplace, hleft⟩ := hfirst.place
  have hend : (Sys.run (acts ++ [.wait d, .arrive req] ++ links.map (.exec i)) :
      Sys Phase).endedWith i = Stages.outcome ph := by
    rw [Sys.endedWith]
    exact congrArg (Option.bind · _) hph
  refine ⟨hfirst.log, ?_, fun hall hlinks => ?_⟩
  · rw [hend]
    cases hplace with
    | @checking ks _ _ => cases ks <;> simp [Phase.checks, Stages.outcome]
    | expiring _ _ _ _ => simp [Stages.outcome]
    | passed _ _ _ _ => simp [Stages.outcome]
    | lost _ _ => simp [Stages.outcome]
  · rw [hend]
    cases hplace with
    | @checking ks _ _ =>
        rw [Phase.left_checks] at hleft
        omega
    | expiring _ _ _ _ =>
        rw [Phase.left] at hleft
        omega
    | passed he hid hincr hone => exact ⟨rfl, _, he, hid, hincr, hone⟩
    | lost hlink hdel => exact absurd (hall _ hlink) (by simp [hdel])

/-- A request whose check of its block key failed: it is counted, and nothing of it is left
after 601 s. -/
theorem drains_after_failed_check :
    (∀ e ∈ (limiter [.arrive { remoteAddr := "a" }, .exec 0 .connectFails, .exec 0 (.up 0),
      .exec 0 (.up 1)]).log, e.KeepsExpiry) ∧
    (limiter [.arrive { remoteAddr := "a" }, .exec 0 .connectFails, .exec 0 (.up 0),
      .exec 0 (.up 1)]).Quiet ∧
    (limiter ([.arrive { remoteAddr := "a" }, .exec 0 .connectFails, .exec 0 (.up 0),
      .exec 0 (.up 1)] ++ [.wait 601])).Clear := by
  have hkeep : ∀ e ∈ (limiter [.arrive { remoteAddr := "a" }, .exec 0 .connectFails,
      .exec 0 (.up 0), .exec 0 (.up 1)]).log, e.KeepsExpiry := by decide +kernel
  have hquiet : (limiter [.arrive { remoteAddr := "a" }, .exec 0 .connectFails,
      .exec 0 (.up 0), .exec 0 (.up 1)]).Quiet := by decide +kernel
  exact ⟨hkeep, hquiet, ((drains _ hkeep hquiet).2 601 (by norm_num)).1⟩

/-- The reply to the `INCR` that creates the counter is lost, and the request ends with an
error. The counter has no deadline; nine further requests, 1000 s apart from each other, are
enough for a ban. -/
theorem immortal_counter :
    (limiter [.arrive { remoteAddr := "a" }, .exec 0 (.up 0), .exec 0 (.replyLost 0)]).Quiet ∧
    ¬ (∀ v en, (limiter [.arrive { remoteAddr := "a" }, .exec 0 (.up 0),
        .exec 0 (.replyLost 0)]).store.lookup 0 (counterKey v) = some en →
      ∃ y, en.deadline = some y ∧ y ≤ (0 : Time) + 1) ∧
    ∃ w ∈ (limiter ([.arrive { remoteAddr := "a" }, .exec 0 (.up 0), .exec 0 (.replyLost 0)] ++
      (List.range 9).flatMap fun j => .wait 1000 :: .arrive { remoteAddr := "a" } ::
        List.replicate 3 (.exec (j + 1) (.up 0)))).log,
      w.time = 9000 ∧ w.cmd = .setEx "userIp:a:block" 1 600 := by
  refine ⟨by decide +kernel, fun hall => ?_, by decide +kernel⟩
  have hdead : ((limiter [.arrive { remoteAddr := "a" }, .exec 0 (.up 0),
      .exec 0 (.replyLost 0)]).store.lookup 0 (counterKey "a")).map Entry.deadline =
        some none := by decide +kernel
  obtain ⟨en, hen, hnone⟩ := Option.map_eq_some_iff.mp hdead
  obtain ⟨y, hy, -⟩ := hall "a" en hen
  rw [hnone] at hy
  exact absurd hy (by simp)

end AllInDocker
