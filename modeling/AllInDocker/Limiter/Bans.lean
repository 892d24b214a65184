import AllInDocker.Limiter.Counters

/-!
The bans of the limiter in runs without failures.

* `BlockStep` and `BlockOk`: a block key is only ever written as a whole, so it holds `1`
  and its deadline never moves back; no counter is a block key.
* `refused_after_ban`: a request that reads a block key while a ban on it lasts ends with 403.
* `bans_of_over`: a request that counted over its limit is writing its block keys, in their
  order, or has written all of them; `over_of_ban`, `over_of_set`: nobody else writes one.
* `bans_enforced` collects this for every run of the scripts.
-/

namespace AllInDocker

/-- The ban on a block key. -/
def Command.banOf (k : String) : Command := .setEx k 1 banExpire

/-- The request counted to a number over its limit. -/
def Event.Over (e : Event) : Prop :=
  e.cmd = .incr e.req.limits.incrKey ∧ (e.req.limits.maxFreq : ℤ) < e.count

namespace Phase

/-- After a count over the limit the bans follow. -/
lemma next_count_of_lt {L : Limits} {n : ℤ} (h1 : 1 ≤ L.maxFreq) (h : (L.maxFreq : ℤ) < n) :
    Phase.next L .count (.num n) = bans L.blockKeys := by
  have hne : n ≠ 1 := by omega
  simp [Phase.next, Phase.judge, hne, h]

/-- After a count within the limit they do not. -/
lemma next_count_of_le {L : Limits} {n : ℤ} (h : n ≤ L.maxFreq) :
    Phase.next L .count (.num n) = expire ∨ Phase.next L .count (.num n) = ended (.ok ()) := by
  have hle : ¬ (L.maxFreq : ℤ) < n := by omega
  by_cases h1 : n = 1
  · left
    simp [Phase.next, h1]
  · right
    simp [Phase.next, Phase.judge, h1, hle]

end Phase

namespace Sys

variable {G : Sys Phase → Prop} {σ : Sys Phase} {i : ℕ} {p : Proc Phase} {e : Event} {s : Store}
  {ph : Phase}

/-! ### One block key -/

/-- What a successful command does to the key `b`, a block key: nothing, or a ban. -/
inductive BlockStep (σ : Sys Phase) (e : Event) (s : Store) (b : String) : Prop where
  | same (hcmd : e.cmd ≠ .banOf b) (hs : s b = σ.store b)
  | banned (hcmd : e.cmd = .banOf b) (hs : s b = some ⟨.int 1, some (σ.now + 600)⟩)

lemma Fires.blockStep (h : Fires σ i p e s ph) {b : String} (hb : IsBlockKey b) :
    BlockStep σ e s b := by
  have hne : b ≠ p.req.limits.incrKey := by
    rw [p.req.limits_incrKey]
    exact (counterKey_ne_of_isBlockKey hb).symm
  cases h with
  | refused n hp _ => exact .same (by simp [event, Command.get, Command.banOf, Command.setEx]) rfl
  | passed n hp _ => exact .same (by simp [event, Command.get, Command.banOf, Command.setEx]) rfl
  | created n hp _ _ =>
      exact .same (by simp [event, Command.incr, Command.banOf, Command.setEx])
        (TimedStore.put_of_ne _ hne _)
  | counted n hp _ _ =>
      exact .same (by simp [event, Command.incr, Command.banOf, Command.setEx])
        (TimedStore.put_of_ne _ hne _)
  | expired n hp _ =>
      exact .same (by simp [event, Command.expire, Command.banOf, Command.setEx])
        (TimedStore.put_of_ne _ hne _)
  | gone n hp _ =>
      exact .same (by simp [event, Command.expire, Command.banOf, Command.setEx]) rfl
  | @banned n k ks hp =>
      by_cases hk : b = k
      · subst hk
        exact .banned rfl (TimedStore.put_self ..)
      · exact .same (by simpa [event, Command.banOf, Command.setEx] using Ne.symm hk)
          (TimedStore.put_of_ne _ hk _)

/-- A block key holds `1` until a deadline no more than 600 s away, and every ban so far has
its 600 s. -/
structure BlockOk (σ : Sys Phase) (b : String) : Prop where
  entry : ∀ en, σ.store b = some en → ∃ y, en = ⟨.int 1, some y⟩ ∧ y ≤ σ.now + 600
  banned : ∀ w ∈ σ.log, w.cmd = .banOf b →
    ∃ y, σ.store b = some ⟨.int 1, some y⟩ ∧ w.time + 600 ≤ y

lemma Reached.blockOk (h : Reached G σ) {b : String} (hb : IsBlockKey b) : BlockOk σ b := by
  induction h with
  | init _ => exact ⟨by simp [Sys.init, TimedStore.empty], by simp [Sys.init]⟩
  | arrive _ _ _ ih => exact ⟨ih.entry, ih.banned⟩
  | @wait σ _ d _ ih =>
      refine ⟨fun en hen => ?_, ih.banned⟩
      obtain ⟨y, rfl, hy⟩ := ih.entry en hen
      have hd : (0 : ℚ) ≤ d := d.2
      exact ⟨y, rfl, by simp only; linarith⟩
  | @fire σ hσ i p e s ph hi hf _ ih =>
      rcases hf.blockStep hb with ⟨hcmd, hs⟩ | ⟨hcmd, hs⟩
      · refine ⟨fun en hen => ih.entry en (hs ▸ hen), fun w hw hban => ?_⟩
        rcases List.mem_cons.mp hw with rfl | hw
        · exact absurd hban hcmd
        · obtain ⟨y, hy, hle⟩ := ih.banned w hw hban
          exact ⟨y, hs.trans hy, hle⟩
      · refine ⟨fun en hen => ⟨σ.now + 600, ?_, le_rfl⟩, fun w hw hban => ⟨_, hs, ?_⟩⟩
        · exact Option.some.inj (hen.symm.trans hs)
        · rcases List.mem_cons.mp hw with rfl | hw
          · rw [hf.time_eq]
          · have := hσ.time_le w hw
            linarith

/-- No command takes a ban back: the key keeps its value and its deadline moves forward. -/
lemma Reached.block_kept (h : Reached G σ) (hf : Fires σ i p e s ph) {b : String}
    (hb : IsBlockKey b) {en : Entry RedisVal Time} (hen : σ.store b = some en) :
    ∃ y y', en = ⟨.int 1, some y⟩ ∧ s b = some ⟨.int 1, some y'⟩ ∧ y ≤ y' := by
  obtain ⟨y, rfl, hy⟩ := (h.blockOk hb).entry en hen
  rcases hf.blockStep hb with ⟨-, hs⟩ | ⟨-, hs⟩
  · exact ⟨y, y, rfl, hs.trans hen, le_rfl⟩
  · exact ⟨y, _, rfl, hs, hy⟩

/-! ### Refusals -/

/-- A request that issues a command has not ended. -/
lemma Fires.not_ended (h : Fires σ i p e s ph) (o : Except Stop Unit) : p.prog ≠ .ended o := by
  cases h <;> simp_all

/-- How a request has ended does not change. -/
lemma endedWith_after {j : ℕ} {o : Except Stop Unit} (hi : σ.procs[i]? = some p)
    (hf : Fires σ i p e s ph) (h : σ.endedWith j = some o) :
    (σ.after i p.req e s ph).endedWith j = some o := by
  rw [endedWith, after_procs hi]
  split_ifs with hij
  · subst hij
    rw [endedWith, hi, Option.bind_some] at h
    cases hp : p.prog with
    | ended o' => exact absurd hp (hf.not_ended o')
    | _ => simp [hp, Stages.outcome] at h
  · exact h

/-- A block key that holds `1` refuses the request. -/
lemma Fires.refused_of_lookup {k : String} {y : Time} (h : Fires σ i p e s ph)
    (hk : σ.store.lookup σ.now k = some ⟨.int 1, some y⟩) (he : e.cmd = .get k) :
    ph = .ended (.error (.exit 403)) := by
  have hanswer : ∀ n, (σ.event i p.req (.up n) (.get k)).answer.tonumber = some 1 := by
    intro n
    simp only [event, through_up, Store.exec_get_of_int hk, directResult, Reply.entry,
      isRedisNull]
    exact LuaVal.tonumber_one
  cases h with
  | refused n hp _ => rfl
  | @passed n k' ks hp hv =>
      simp only [event, Command.get, Command.mk.injEq, List.cons.injEq, Arg.str.injEq, true_and,
        and_true] at he
      subst he
      exact absurd (hanswer n) hv
  | created n hp _ _ => simp [event, Command.incr, Command.get] at he
  | counted n hp _ _ => simp [event, Command.incr, Command.get] at he
  | expired n hp _ => simp [event, Command.expire, Command.get] at he
  | gone n hp _ => simp [event, Command.expire, Command.get] at he
  | banned n hp => simp [event, Command.setEx, Command.get] at he

/-- A request reads, and bans, block keys of its own only. -/
lemma Fires.isBlockKey_of_get (h : Fires σ i p e s ph) (hp : p.prog.Placed p.req.limits)
    {k : String} (he : e.cmd = .get k) : IsBlockKey k := by
  obtain ⟨n, c, hc, rfl⟩ := h.event_eq
  obtain rfl : c = .get k := he
  cases hprog : p.prog with
  | check k' ks =>
      rw [hprog] at hc hp
      simp only [Phase.cmd, Command.get, Option.some.injEq, Command.mk.injEq, List.cons.injEq,
        Arg.str.injEq, true_and, and_true] at hc
      subst hc
      exact p.req.isBlockKey_of_mem (hp.subset (List.mem_cons_self ..))
  | count => simp [hprog, Phase.cmd, Command.incr, Command.get] at hc
  | expire => simp [hprog, Phase.cmd, Command.expire, Command.get] at hc
  | ban k' ks => simp [hprog, Phase.cmd, Command.setEx, Command.get] at hc
  | ended o => simp [hprog, Phase.cmd] at hc

/-- While a ban lasts, a request that reads its key ends with 403. -/
lemma Reached.refused_after_ban (h : Reached G σ) : σ.log.Pairwise fun g w =>
    ∀ k, g.cmd = .get k → w.cmd = .banOf k → g.time < w.time + 600 →
      σ.endedWith g.id = some (.error (.exit 403)) := by
  induction h with
  | init _ => exact List.Pairwise.nil
  | @arrive σ hσ req _ ih =>
      refine List.Pairwise.imp_of_mem (fun {g w} hg hw hpair k hget hban hlt => ?_) ih
      obtain ⟨p, hp, -⟩ := hσ.owner g hg
      have hold := hpair k hget hban hlt
      rw [endedWith, List.getElem?_append_left (List.getElem?_eq_some_iff.mp hp).1]
      exact hold
  | wait _ _ _ ih => exact ih
  | @fire σ hσ i p e s ph hi hf _ ih =>
      refine List.pairwise_cons.mpr ⟨fun w hw k hget hban hlt => ?_, ?_⟩
      · have hb := hf.isBlockKey_of_get (hσ.placed hi) hget
        obtain ⟨y, hy, hle⟩ := (hσ.blockOk hb).banned w hw hban
        have halive : σ.now < y := by
          rw [hf.time_eq] at hlt
          linarith
        have hlook : σ.store.lookup σ.now k = some ⟨.int 1, some y⟩ :=
          TimedStore.lookup_eq_some_iff.mpr ⟨hy, fun t ht => Option.some.inj ht ▸ halive⟩
        rw [endedWith, after_procs hi, hf.id_eq, if_pos rfl, hf.refused_of_lookup hlook hget]
        rfl
      · exact ih.imp fun hpair k hget hban hlt => endedWith_after hi hf (hpair k hget hban hlt)

/-! ### Bans -/

/-- A request that counted over its limit has written the first of its block keys and is
about to write the others. -/
def Banning (σ : Sys Phase) (e : Event) : Prop :=
  ∃ done rest, e.req.limits.blockKeys = done ++ rest ∧
    σ.procs[e.id]? = some ⟨e.req, .bans rest⟩ ∧
    ∀ k ∈ done, ∃ w ∈ σ.log, w.id = e.id ∧ w.cmd = .banOf k

/-- After a count over the limit all block keys are to be written. -/
lemma Fires.over (h : Fires σ i p e s ph) (hover : e.Over) :
    ph = .bans p.req.limits.blockKeys := by
  obtain ⟨hcmd, hlt⟩ := hover
  rw [h.req_eq] at hcmd hlt
  have h1 := p.req.one_le_maxFreq
  cases h with
  | refused n hp _ => simp [event, Command.get, Command.incr] at hcmd
  | passed n hp _ => simp [event, Command.get, Command.incr] at hcmd
  | created n hp _ ha =>
      rw [Event.count_eq ha] at hlt
      omega
  | counted n hp _ ha =>
      rw [Event.count_eq ha] at hlt
      exact Phase.next_count_of_lt h1 hlt
  | expired n hp _ => simp [event, Command.expire, Command.incr] at hcmd
  | gone n hp _ => simp [event, Command.expire, Command.incr] at hcmd
  | banned n hp => simp [event, Command.setEx, Command.incr] at hcmd

/-- A request that is to write a block key does so. -/
lemma Fires.of_ban {k : String} {ks : List String} (h : Fires σ i p e s ph)
    (hp : p.prog = .ban k ks) : e.cmd = .banOf k ∧ ph = .bans ks := by
  cases h with
  | banned n hp' =>
      rw [hp, Phase.ban.injEq] at hp'
      obtain ⟨rfl, rfl⟩ := hp'
      exact ⟨rfl, rfl⟩
  | _ => simp_all

lemma Reached.bans_of_over (h : Reached G σ) : ∀ e ∈ σ.log, e.Over → Banning σ e := by
  induction h with
  | init _ => simp [Sys.init]
  | arrive _ req _ ih =>
      intro e he hover
      obtain ⟨done, rest, hkeys, hp, hdone⟩ := ih e he hover
      refine ⟨done, rest, hkeys, ?_, hdone⟩
      rw [List.getElem?_append_left (List.getElem?_eq_some_iff.mp hp).1]
      exact hp
  | wait _ _ _ ih => exact ih
  | @fire σ hσ i p e₀ s ph hi hf _ ih =>
      intro e he hover
      rcases List.mem_cons.mp he with rfl | he
      · -- the count itself: all keys are still to be written
        refine ⟨[], e.req.limits.blockKeys, rfl, ?_, by simp⟩
        rw [hf.id_eq, hf.req_eq, after_procs hi, if_pos rfl, hf.over hover]
      · obtain ⟨done, rest, hkeys, hp, hdone⟩ := ih e he hover
        by_cases hij : i = e.id
        · -- its own next ban
          subst hij
          rw [hi, Option.some.injEq] at hp
          subst hp
          cases rest with
          | nil => exact absurd rfl (hf.not_ended (.ok ()))
          | cons k ks =>
              obtain ⟨hcmd, rfl⟩ := hf.of_ban rfl
              refine ⟨done ++ [k], ks, by simp [hkeys], ?_, ?_⟩
              · rw [after_procs hi, if_pos rfl]
              · intro k' hk'
                rcases List.mem_append.mp hk' with hk' | hk'
                · obtain ⟨w, hw, hid, hcmd'⟩ := hdone k' hk'
                  exact ⟨w, List.mem_cons_of_mem _ hw, hid, hcmd'⟩
                · rw [List.mem_singleton] at hk'
                  subst hk'
                  exact ⟨e₀, List.mem_cons_self .., hf.id_eq, hcmd⟩
        · refine ⟨done, rest, hkeys, ?_, fun k hk => ?_⟩
          · rw [after_procs hi, if_neg hij]
            exact hp
          · obtain ⟨w, hw, hid, hcmd⟩ := hdone k hk
            exact ⟨w, List.mem_cons_of_mem _ hw, hid, hcmd⟩

/-- A request comes to its bans from a count over the limit only. -/
lemma Fires.over_of_ban {k : String} {ks : List String} (h : Fires σ i p e s ph)
    (hph : ph = .ban k ks) : e.Over ∨ ∃ k' ks', p.prog = .ban k' ks' := by
  cases h with
  | refused n hp _ => simp at hph
  | @passed n k' ks' hp _ => cases ks' <;> simp [Phase.checks] at hph
  | created n hp _ _ => simp at hph
  | @counted n hp m d hk ha =>
      left
      refine ⟨rfl, ?_⟩
      rw [Event.count_eq ha]
      by_contra hle
      rcases Phase.next_count_of_le (L := p.req.limits) (n := m + 1) (not_lt.mp hle) with
        heq | heq <;> rw [heq] at hph <;> simp at hph
  | expired n hp _ => simp at hph
  | gone n hp _ => simp at hph
  | banned n hp => exact Or.inr ⟨_, _, hp⟩

/-- A request that is to write a block key has counted over its limit. -/
lemma Reached.over_of_ban (h : Reached G σ) : ∀ {i : ℕ} {p : Proc Phase} {k : String}
    {ks : List String}, σ.procs[i]? = some p → p.prog = .ban k ks →
      ∃ e ∈ σ.log, e.id = i ∧ e.Over := by
  induction h with
  | init _ => simp [Sys.init]
  | arrive _ req _ ih =>
      intro i p k ks hi hp
      rcases of_arrive hi with hi | rfl
      · exact ih hi hp
      · have hstart : (Stages.start req : Phase).Uncounted := Phase.uncounted_checks _
        rw [show (Stages.start req : Phase) = .ban k ks from hp] at hstart
        exact hstart.elim
  | wait _ _ _ ih => exact ih
  | @fire σ hσ i₀ p₀ e₀ s ph hi₀ hf _ ih =>
      intro i p k ks hi hp
      rw [after_procs hi₀] at hi
      split_ifs at hi with hij
      · obtain rfl := Option.some.inj hi
        subst hij
        rcases hf.over_of_ban hp with hover | ⟨k', ks', hp'⟩
        · exact ⟨e₀, List.mem_cons_self .., hf.id_eq, hover⟩
        · obtain ⟨e, he, hid, hover⟩ := ih hi₀ hp'
          exact ⟨e, List.mem_cons_of_mem _ he, hid, hover⟩
      · obtain ⟨e, he, hid, hover⟩ := ih hi hp
        exact ⟨e, List.mem_cons_of_mem _ he, hid, hover⟩

lemma Fires.ban_of_set (h : Fires σ i p e s ph) (he : e.cmd.name = .set) :
    ∃ k ks, p.prog = .ban k ks := by
  cases h with
  | banned n hp => exact ⟨_, _, hp⟩
  | _ => simp [event, Command.get, Command.incr, Command.expire] at he

/-- Nobody else writes a block key. -/
lemma Reached.over_of_set (h : Reached G σ) : ∀ w ∈ σ.log, w.cmd.name = .set →
    ∃ e ∈ σ.log, e.id = w.id ∧ e.Over := by
  induction h with
  | init _ => simp [Sys.init]
  | arrive _ _ _ ih => exact ih
  | wait _ _ _ ih => exact ih
  | @fire σ hσ i p e₀ s ph hi hf _ ih =>
      intro w hw hset
      rcases List.mem_cons.mp hw with rfl | hw
      · obtain ⟨k, ks, hp⟩ := hf.ban_of_set hset
        obtain ⟨e, he, hid, hover⟩ := hσ.over_of_ban hi hp
        exact ⟨e, List.mem_cons_of_mem _ he, hid.trans hf.id_eq.symm, hover⟩
      · obtain ⟨e, he, hid, hover⟩ := ih w hw hset
        exact ⟨e, List.mem_cons_of_mem _ he, hid, hover⟩

/-! ### Refused requests -/

/-- A request that ended with 403 has only read. -/
lemma Reached.get_of_refused (h : Reached G σ) {status : ℕ}
    (hend : σ.endedWith i = some (.error (.exit status))) :
    ∀ e ∈ σ.log, e.id = i → e.cmd.name = .get := by
  rw [endedWith, Option.bind_eq_some_iff] at hend
  obtain ⟨p, hp, hout⟩ := hend
  refine h.get_of_uncounted hp ?_
  cases hprog : p.prog with
  | ended o =>
      rw [hprog] at hout
      obtain rfl : o = .error (.exit status) := Option.some.inj hout
      trivial
  | _ => simp [hprog, Stages.outcome] at hout

/-- A command that reads changes nothing. -/
lemma Fires.store_of_get (h : Fires σ i p e s ph) (he : e.cmd.name = .get) : s = σ.store := by
  cases h with
  | refused n hp _ => rfl
  | passed n hp _ => rfl
  | gone n hp _ => rfl
  | _ => simp [event, Command.incr, Command.expire, Command.setEx] at he

end Sys

/-! ### Every run -/

/-- The bans in every run of the scripts in which all commands succeed.

1. A request that counted over its limit has, when it has ended, banned all its block keys.
2. A request that reads a block key less than 600 s after a ban on it ends with 403.
3. A block key that is there stays there when a request issues a command; it holds `1`
before and after, and its deadline does not move back.
4. No command of a request that ended with 403 has changed the store. -/
theorem bans_enforced (acts : List Action) (hok : (limiter acts).AllOk) :
    (∀ e ∈ (limiter acts).log, ∀ n : ℤ, e.cmd = .incr e.req.limits.incrKey →
      e.answer = .num n → (e.req.limits.maxFreq : ℤ) < n →
      ((limiter acts).endedWith e.id).isSome →
      ∀ k ∈ e.req.limits.blockKeys, ∃ w ∈ (limiter acts).log,
        w.id = e.id ∧ w.cmd = .setEx k 1 600) ∧
    ((limiter acts).log.Pairwise fun g w => ∀ k, g.cmd = .get k → w.cmd = .setEx k 1 600 →
      g.time < w.time + 600 → (limiter acts).endedWith g.id = some (.error (.exit 403))) ∧
    (∀ pre i link, pre ++ [.exec i link] <+: acts → ∀ b, IsBlockKey b → ∀ en,
      (limiter pre).store.lookup (limiter pre).now b = some en →
      ∃ y y', en = ⟨.int 1, some y⟩ ∧ y ≤ y' ∧
        (limiter (pre ++ [.exec i link])).store.lookup
          (limiter (pre ++ [.exec i link])).now b = some ⟨.int 1, some y'⟩) ∧
    (∀ pre i link, pre ++ [.exec i link] <+: acts →
      (limiter acts).endedWith i = some (.error (.exit 403)) →
      (limiter (pre ++ [.exec i link])).store = (limiter pre).store) := by
  simp only [limiter_log, limiter_store, limiter_now, limiter_endedWith]
  rw [Sys.AllOk, limiter_log] at hok
  have hreach : Sys.Reached (fun _ => True) (Sys.run acts) := Sys.reached_run hok (by simp)
  refine ⟨?_, hreach.refused_after_ban, ?_, ?_⟩
  · intro e he n hcmd hanswer hlt hend k hk
    have hover : e.Over := ⟨hcmd, by rwa [Event.count_eq hanswer]⟩
    obtain ⟨done, rest, hkeys, hp, hdone⟩ := hreach.bans_of_over e he hover
    rw [Sys.endedWith, hp, Option.bind_some] at hend
    cases rest with
    | nil => exact hdone k (by rwa [hkeys, List.append_nil] at hk)
    | cons k' ks => simp [Phase.bans, Stages.outcome] at hend
  · intro pre i link hpre b hb en hen
    have hpre' : pre <+: acts := (List.prefix_append ..).trans hpre
    have hreach' : Sys.Reached (fun _ => True) (Sys.run pre) :=
      Sys.reached_run (Sys.AllOk.of_prefix hok hpre') (by simp)
    obtain ⟨hraw, halive⟩ := TimedStore.lookup_eq_some_iff.mp hen
    rcases Sys.run_exec (Sys.AllOk.of_prefix hok hpre) with heq | ⟨p, e, s, ph, -, hf, heq⟩
    · obtain ⟨y, rfl, -⟩ := (hreach'.blockOk hb).entry en hraw
      exact ⟨y, y, rfl, le_rfl, heq ▸ hen⟩
    · obtain ⟨y, y', rfl, hs, hle⟩ := hreach'.block_kept hf hb hraw
      refine ⟨y, y', rfl, hle, ?_⟩
      rw [heq]
      refine TimedStore.lookup_eq_some_iff.mpr ⟨hs, fun t ht => ?_⟩
      obtain rfl := Option.some.inj ht
      exact (halive y rfl).trans_le hle
  · intro pre i link hpre hend
    rcases Sys.run_exec (Sys.AllOk.of_prefix hok hpre) with heq | ⟨p, e, s, ph, -, hf, heq⟩
    · rw [heq]
    · -- the event of this command is in the log of the whole run, so it is a read
      have hmem : e ∈ (Sys.run acts : Sys Phase).log := by
        refine (Sys.log_suffix_run hpre).subset ?_
        rw [heq]
        exact List.mem_cons_self ..
      rw [heq]
      exact hf.store_of_get (hreach.get_of_refused hend e hmem hf.id_eq)

/-- Eleven requests from one address: the tenth bans it, the eleventh is refused and has
changed nothing. -/
theorem eleventh_request_refused :
    (limiter (Sys.oneByOne (List.replicate 11 { remoteAddr := "a" }))).AllOk ∧
    (∃ w ∈ (limiter (Sys.oneByOne (List.replicate 11 { remoteAddr := "a" }))).log,
      w.id = 9 ∧ w.cmd = .setEx "userIp:a:block" 1 600) ∧
    (limiter (Sys.oneByOne (List.replicate 11 { remoteAddr := "a" }))).endedWith 10 =
      some (.error (.exit 403)) ∧
    ∀ pre link,
      pre ++ [.exec 10 link] <+: Sys.oneByOne (List.replicate 11 { remoteAddr := "a" }) →
      (limiter (pre ++ [.exec 10 link])).store = (limiter pre).store := by
  have hok : (limiter (Sys.oneByOne (List.replicate 11 { remoteAddr := "a" }))).AllOk := by
    decide +kernel
  have hend : (limiter (Sys.oneByOne (List.replicate 11 { remoteAddr := "a" }))).endedWith 10 =
      some (.error (.exit 403)) := by decide +kernel
  refine ⟨hok, by decide +kernel, hend, fun pre link hpre => ?_⟩
  exact (bans_enforced _ hok).2.2.2 pre 10 link hpre hend

end AllInDocker
