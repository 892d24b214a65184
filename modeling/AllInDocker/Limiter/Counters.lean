import AllInDocker.Lib.WindowCounter
import AllInDocker.Limiter.System

/-!
The counters of the limiter in runs without failures.

* `CounterStep` says what a command that succeeds can do to one counter, and
  `exists_shows` that the counter with the log of its `INCR`s is a `Window` with the length
  of one second. No string makes a block key of a counter, so nothing else touches it.
* `owner` and `get_of_uncounted` relate the log to the requests: an event belongs to the
  request of its number, and a request that has not counted yet has only read. Therefore
  no request counts twice, `incr_once`.
-/

namespace AllInDocker

/-- The value an `INCR` was answered with. -/
def Event.count (e : Event) : ℤ :=
  match e.answer with
  | .num n => n
  | _ => 0

lemma Event.count_eq {e : Event} {n : ℤ} (h : e.answer = .num n) : e.count = n := by
  rw [Event.count, h]

/-- The event is an `INCR`. -/
def Event.IsIncr (e : Event) : Prop := e.cmd.name = .incr

instance (e : Event) : Decidable e.IsIncr := inferInstanceAs (Decidable (_ = _))

/-- The block keys a request still has to check or to write are the last of its own. -/
def Phase.Placed (L : Limits) : Phase → Prop
  | check k ks => (k :: ks) <:+ L.blockKeys
  | ban k ks => (k :: ks) <:+ L.blockKeys
  | _ => True

lemma Phase.placed_checks {L : Limits} {ks : List String} (h : ks <:+ L.blockKeys) :
    (checks ks).Placed L := by
  cases ks with
  | nil => trivial
  | cons k ks => exact h

lemma Phase.placed_bans {L : Limits} {ks : List String} (h : ks <:+ L.blockKeys) :
    (bans ks).Placed L := by
  cases ks with
  | nil => trivial
  | cons k ks => exact h

lemma Phase.placed_judge (L : Limits) (v : LuaVal) : (judge L v).Placed L := by
  rw [judge]
  split
  · trivial
  · exact placed_bans (List.suffix_refl _)
  · trivial

/-- A request stays placed whatever it is answered. -/
lemma Phase.Placed.next {L : Limits} {ph : Phase} (h : ph.Placed L) (v : LuaVal) :
    (ph.next L v).Placed L := by
  cases ph with
  | check k ks =>
      rw [Phase.next]
      split_ifs
      · trivial
      · exact placed_checks ((List.suffix_cons k ks).trans h)
  | count =>
      rw [Phase.next]
      split_ifs
      · trivial
      · exact placed_judge L v
  | expire => exact placed_judge L v
  | ban k ks => exact placed_bans ((List.suffix_cons k ks).trans h)
  | ended o => trivial

/-- The request has not counted, and never will if it has ended. -/
def Phase.Uncounted : Phase → Prop
  | check _ _ => True
  | count => True
  | ended (.error (.exit _)) => True
  | _ => False

lemma Phase.uncounted_checks (ks : List String) : (checks ks).Uncounted := by
  cases ks <;> trivial

/-- Where a request stands after it has counted. -/
lemma Phase.not_uncounted_next_count (L : Limits) (n : ℤ) :
    ¬ (Phase.next L .count (.num n)).Uncounted := by
  simp only [Phase.next, Phase.judge, LuaVal.gtNum_num]
  split_ifs
  · exact id
  · split
    · exact id
    · cases L.blockKeys <;> exact id
    · exact id

namespace Sys

variable {G : Sys Phase → Prop} {σ : Sys Phase} {i : ℕ} {p : Proc Phase} {e : Event} {s : Store}
  {ph : Phase}

/-! ### The events of a request -/

lemma after_procs (hi : σ.procs[i]? = some p) (req : Request) (j : ℕ) :
    (σ.after i req e s ph).procs[j]? = if i = j then some ⟨req, ph⟩ else σ.procs[j]? := by
  have hlt : i < σ.procs.length := (List.getElem?_eq_some_iff.mp hi).1
  simp [after, List.getElem?_set, hlt]

/-- A request that is there after an arrival was there before, or is the new one. -/
lemma of_arrive {p₀ : Proc Phase} (hi : (σ.procs ++ [p₀])[i]? = some p) :
    σ.procs[i]? = some p ∨ p = p₀ := by
  rw [List.getElem?_append] at hi
  split_ifs at hi with hlt
  · exact Or.inl hi
  · exact Or.inr (List.mem_singleton.mp (List.mem_of_getElem? hi))

lemma Fires.id_eq (h : Fires σ i p e s ph) : e.id = i := by
  obtain ⟨n, c, -, rfl⟩ := h.event_eq
  rfl

lemma Fires.req_eq (h : Fires σ i p e s ph) : e.req = p.req := by
  obtain ⟨n, c, -, rfl⟩ := h.event_eq
  rfl

lemma Fires.time_eq (h : Fires σ i p e s ph) : e.time = σ.now := by
  obtain ⟨n, c, -, rfl⟩ := h.event_eq
  rfl

/-- Every event belongs to the request of its number. -/
lemma Reached.owner (h : Reached G σ) :
    ∀ e ∈ σ.log, ∃ p, σ.procs[e.id]? = some p ∧ p.req = e.req := by
  induction h with
  | init _ => simp [Sys.init]
  | arrive _ req _ ih =>
      intro e he
      obtain ⟨p, hp, hreq⟩ := ih e he
      exact ⟨p, List.getElem?_append_left (List.getElem?_eq_some_iff.mp hp).1 ▸ hp, hreq⟩
  | wait _ _ _ ih => exact ih
  | fire _ hi hf _ ih =>
      intro e' he'
      rw [after_procs hi]
      rcases List.mem_cons.mp he' with rfl | he'
      · rw [hf.id_eq, hf.req_eq, if_pos rfl]
        exact ⟨_, rfl, rfl⟩
      · obtain ⟨p', hp', hreq⟩ := ih e' he'
        split_ifs with hij
        · rw [← hij, hi, Option.some.injEq] at hp'
          exact ⟨_, rfl, hp' ▸ hreq⟩
        · exact ⟨p', hp', hreq⟩

/-- No event lies in the future. -/
lemma Reached.time_le (h : Reached G σ) : ∀ e ∈ σ.log, e.time ≤ σ.now := by
  induction h with
  | init _ => simp [Sys.init]
  | arrive _ req _ ih => exact ih
  | wait _ d _ ih => exact fun e he => (ih e he).trans (by simp)
  | fire _ hi hf _ ih => exact List.forall_mem_cons.mpr ⟨hf.time_eq.le, ih⟩

lemma Fires.placed (h : Fires σ i p e s ph) (hp : p.prog.Placed p.req.limits) :
    ph.Placed p.req.limits := by
  cases h with
  | refused n hph _ => trivial
  | passed n hph _ =>
      rw [hph] at hp
      exact Phase.placed_checks ((List.suffix_cons ..).trans hp)
  | created n hph _ _ => trivial
  | counted n hph _ _ => exact Phase.Placed.next (show Phase.count.Placed _ from trivial) _
  | expired n hph _ => trivial
  | gone n hph _ => trivial
  | banned n hph =>
      rw [hph] at hp
      exact Phase.placed_bans ((List.suffix_cons ..).trans hp)

lemma Reached.placed (h : Reached G σ) : ∀ {i : ℕ} {p : Proc Phase}, σ.procs[i]? = some p →
    p.prog.Placed p.req.limits := by
  induction h with
  | init _ => simp [Sys.init]
  | @arrive σ _ req _ ih =>
      intro i p hi
      rcases of_arrive hi with hi | rfl
      · exact ih hi
      · exact Phase.placed_checks (List.suffix_refl _)
  | wait _ _ _ ih => exact ih
  | fire _ hi₀ hf _ ih =>
      intro i p hi
      rw [after_procs hi₀] at hi
      split_ifs at hi
      · obtain rfl := Option.some.inj hi
        exact hf.placed (ih hi₀)
      · exact ih hi

/-- A request that stays uncounted has only read a key. -/
lemma Fires.of_uncounted (h : Fires σ i p e s ph) (hph : ph.Uncounted) :
    p.prog.Uncounted ∧ e.cmd.name = .get ∧ s = σ.store := by
  cases h with
  | refused n hp _ => exact ⟨by rw [hp]; trivial, rfl, rfl⟩
  | passed n hp _ => exact ⟨by rw [hp]; trivial, rfl, rfl⟩
  | created n hp _ _ => exact hph.elim
  | counted n hp _ _ => exact absurd hph (Phase.not_uncounted_next_count _ _)
  | expired n hp _ => exact hph.elim
  | gone n hp _ => exact hph.elim
  | @banned n k ks hp => cases ks <;> exact hph.elim

/-- A request that has not counted has only read. -/
lemma Reached.get_of_uncounted (h : Reached G σ) : ∀ {i : ℕ} {p : Proc Phase},
    σ.procs[i]? = some p → p.prog.Uncounted → ∀ e ∈ σ.log, e.id = i → e.cmd.name = .get := by
  induction h with
  | init _ => simp [Sys.init]
  | @arrive σ hσ req _ ih =>
      intro i p hi hp e he hid
      obtain ⟨p', hp', -⟩ := hσ.owner e he
      rw [hid] at hp'
      have hlt : i < σ.procs.length := (List.getElem?_eq_some_iff.mp hp').1
      rw [List.getElem?_append_left hlt] at hi
      exact ih hi hp e he hid
  | wait _ _ _ ih => exact ih
  | @fire σ hσ i₀ p₀ e₀ s₀ ph₀ hi₀ hf _ ih =>
      intro i p hi hp e he hid
      rw [after_procs hi₀] at hi
      split_ifs at hi with hij
      · obtain rfl := Option.some.inj hi
        subst hij
        obtain ⟨hunc, hget, -⟩ := hf.of_uncounted hp
        rcases List.mem_cons.mp he with rfl | he
        · exact hget
        · exact ih hi₀ hunc e he hid
      · rcases List.mem_cons.mp he with rfl | he
        · exact absurd (hf.id_eq.symm.trans hid) hij
        · exact ih hi hp e he hid

/-- An `INCR` is issued at the count only. -/
lemma Fires.count_of_isIncr (h : Fires σ i p e s ph) (he : e.IsIncr) : p.prog = .count := by
  cases h with
  | refused n hp _ => simp [Event.IsIncr, event, Command.get] at he
  | passed n hp _ => simp [Event.IsIncr, event, Command.get] at he
  | created n hp _ _ => exact hp
  | counted n hp _ _ => exact hp
  | expired n hp _ => simp [Event.IsIncr, event, Command.expire] at he
  | gone n hp _ => simp [Event.IsIncr, event, Command.expire] at he
  | banned n hp => simp [Event.IsIncr, event, Command.setEx] at he

/-- A request counts under its own counter. -/
lemma Reached.incr_own (h : Reached G σ) :
    ∀ e ∈ σ.log, e.IsIncr → e.cmd = .incr e.req.limits.incrKey := by
  induction h with
  | init _ => simp [Sys.init]
  | arrive _ _ _ ih => exact ih
  | wait _ _ _ ih => exact ih
  | fire _ hi hf _ ih =>
      refine List.forall_mem_cons.mpr ⟨fun hincr => ?_, ih⟩
      have hp := hf.count_of_isIncr hincr
      obtain ⟨n, c, hc, rfl⟩ := hf.event_eq
      rw [hp] at hc
      exact (Option.some.inj hc).symm

/-- No request counts twice. -/
lemma Reached.incr_once (h : Reached G σ) :
    σ.log.Pairwise fun e e' => e.IsIncr → e'.IsIncr → e.id ≠ e'.id := by
  induction h with
  | init _ => exact List.Pairwise.nil
  | arrive _ _ _ ih => exact ih
  | wait _ _ _ ih => exact ih
  | fire hσ hi hf _ ih =>
      refine List.pairwise_cons.mpr ⟨fun e' he' hincr hincr' hid => ?_, ih⟩
      have hget := hσ.get_of_uncounted hi (by rw [hf.count_of_isIncr hincr]; trivial) e' he'
        (hid.symm.trans hf.id_eq)
      rw [Event.IsIncr, hget] at hincr'
      exact absurd hincr' (by decide)

/-! ### One counter -/

/-- What a successful command does to the key `k`, a counter. -/
inductive CounterStep (σ : Sys Phase) (e : Event) (s : Store) (k : String) : Prop where
  | same (hcmd : e.cmd ≠ .incr k) (hs : s k = σ.store k)
  | expired {en : Entry RedisVal Time} (hcmd : e.cmd ≠ .incr k)
      (hk : σ.store.lookup σ.now k = some en)
      (hs : s k = some { en with deadline := some (σ.now + 1) })
  | created (hcmd : e.cmd = .incr k) (hk : σ.store.lookup σ.now k = none)
      (hanswer : e.answer = .num 1) (hcreated : e.created = true)
      (hlife : e.life = lives σ.log (.incr k) + 1) (hs : s k = some ⟨.int 1, none⟩)
  | counted {m : ℤ} {d : Option Time} (hcmd : e.cmd = .incr k)
      (hk : σ.store.lookup σ.now k = some ⟨.int m, d⟩)
      (hanswer : e.answer = .num (m + 1)) (hcreated : e.created = false)
      (hlife : e.life = lives σ.log (.incr k)) (hs : s k = some ⟨.int (m + 1), d⟩)

/-- A request writes no counter when it bans. -/
lemma counterKey_ne_of_placed {k : String} {ks : List String}
    (hp : (Phase.ban k ks).Placed p.req.limits) (v : String) : counterKey v ≠ k :=
  counterKey_ne_of_isBlockKey (p.req.isBlockKey_of_mem (hp.subset (List.mem_cons_self ..)))

/-- No successful command does anything else to a counter. -/
lemma Fires.counterStep (h : Fires σ i p e s ph) (hp : p.prog.Placed p.req.limits)
    (v : String) : CounterStep σ e s (counterKey v) := by
  cases h with
  | refused n hph _ => exact .same (by simp [event, Command.get, Command.incr]) rfl
  | passed n hph _ => exact .same (by simp [event, Command.get, Command.incr]) rfl
  | created n hph hk ha =>
      by_cases hv : counterKey v = p.req.limits.incrKey
      · rw [hv]
        refine .created rfl hk ha ?_ ?_ (TimedStore.put_self ..)
        · simp [event, creates, Command.incr, hk, Link.reaches]
        · simp [event, creates, Command.incr, hk, Link.reaches]
      · exact .same (by simpa [event, Command.incr] using Ne.symm hv)
          (TimedStore.put_of_ne _ hv _)
  | counted n hph hk ha =>
      by_cases hv : counterKey v = p.req.limits.incrKey
      · rw [hv]
        refine .counted rfl hk ha ?_ ?_ (TimedStore.put_self ..)
        · simp [event, creates, Command.incr, hk]
        · simp [event, creates, Command.incr, hk]
      · exact .same (by simpa [event, Command.incr] using Ne.symm hv)
          (TimedStore.put_of_ne _ hv _)
  | expired n hph hk =>
      by_cases hv : counterKey v = p.req.limits.incrKey
      · rw [hv]
        exact .expired (by simp [event, Command.expire, Command.incr]) hk
          (TimedStore.put_self ..)
      · exact .same (by simp [event, Command.expire, Command.incr])
          (TimedStore.put_of_ne _ hv _)
  | gone n hph hk => exact .same (by simp [event, Command.expire, Command.incr]) rfl
  | banned n hph =>
      rw [hph] at hp
      exact .same (by simp [event, Command.setEx, Command.incr])
        (TimedStore.put_of_ne _ (counterKey_ne_of_placed hp v) _)

/-- The times, values and lifetimes of the events, for the counters. -/
def reading : Reading Event Time := ⟨Event.time, Event.count, Event.life⟩

/-- The state shows the counter `W` under the key `k`. -/
structure Shows (k : String) (σ : Sys Phase) (W : Window Event Time) : Prop where
  now : W.now = σ.now
  cell : σ.store k = W.cell.map fun en => ⟨.int en.value, en.deadline⟩
  last : W.last = lives σ.log (.incr k)
  log : W.log = σ.log.filter fun e => e.cmd = .incr k

lemma lives_cons (e : Event) (log : List Event) (c : Command) :
    lives (e :: log) c = lives log c + if e.created && decide (e.cmd = c) then 1 else 0 := by
  rw [lives, List.countP_cons]
  rfl

/-- Every counter is one, with a window of one second. -/
lemma Reached.exists_shows (h : Reached G σ) (v : String) :
    ∃ W, Window.Reach reading 1 W ∧ Shows (counterKey v) σ W := by
  induction h with
  | init _ => exact ⟨⟨0, none, 0, []⟩, .init 0, rfl, rfl, rfl, rfl⟩
  | arrive _ _ _ ih =>
      obtain ⟨W, hW, hs⟩ := ih
      exact ⟨W, hW, hs.now, hs.cell, hs.last, hs.log⟩
  | @wait σ _ d _ ih =>
      obtain ⟨W, hW, hs⟩ := ih
      refine ⟨{ W with now := σ.now + d }, hW.wait ?_, rfl, hs.cell, hs.last, hs.log⟩
      rw [hs.now]
      simp
  | @fire σ hσ i p e s ph hi hf _ ih =>
      obtain ⟨W, hW, hs⟩ := ih
      rcases hf.counterStep (hσ.placed hi) v with
        ⟨hcmd, hst⟩ | ⟨hcmd, hk, hst⟩ | ⟨hcmd, hk, hans, hcr, hlife, hst⟩ |
        ⟨hcmd, hk, hans, hcr, hlife, hst⟩
      · refine ⟨W, hW, hs.now, hst.trans hs.cell, ?_, ?_⟩
        · simp [after, lives_cons, hcmd, hs.last]
        · simp [after, hcmd, hs.log]
      · obtain ⟨hraw, halive⟩ := TimedStore.lookup_eq_some_iff.mp hk
        rw [hs.cell, Option.map_eq_some_iff] at hraw
        obtain ⟨en, hcell, rfl⟩ := hraw
        refine ⟨_, hW.openWindow hcell (hs.now ▸ halive), hs.now, ?_, ?_, ?_⟩
        · simp [after, hst, hs.now]
        · simp [after, lives_cons, hcmd, hs.last]
        · simp [after, hcmd, hs.log]
      · refine ⟨_, hW.create (e := e) ?_ ?_ ?_ ?_, hs.now, ?_, ?_, ?_⟩
        · intro en hcell halive
          have hlook : σ.store.lookup σ.now (counterKey v) = some ⟨.int en.value, en.deadline⟩ :=
            TimedStore.lookup_eq_some_iff.mpr ⟨by rw [hs.cell, hcell]; rfl, hs.now ▸ halive⟩
          rw [hk] at hlook
          exact absurd hlook (by simp)
        · exact hf.time_eq.trans hs.now.symm
        · exact Event.count_eq hans
        · rw [hs.last]
          exact hlife
        · exact hst
        · simp [after, lives_cons, hcmd, hcr, hs.last]
        · simp [after, hcmd, hs.log]
      · obtain ⟨hraw, halive⟩ := TimedStore.lookup_eq_some_iff.mp hk
        rw [hs.cell, Option.map_eq_some_iff] at hraw
        obtain ⟨en, hcell, heq⟩ := hraw
        simp only [Entry.mk.injEq, RedisVal.int.injEq] at heq
        obtain ⟨rfl, rfl⟩ := heq
        refine ⟨_, hW.tick (e := e) hcell (hs.now ▸ halive) ?_ ?_ ?_, hs.now, ?_, ?_, ?_⟩
        · exact hf.time_eq.trans hs.now.symm
        · exact Event.count_eq hans
        · rw [hs.last]
          exact hlife
        · exact hst
        · simp [after, lives_cons, hcr, hs.last]
        · simp [after, hcmd, hs.log]

end Sys

end AllInDocker
