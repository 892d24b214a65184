import AllInDocker.Limiter.Bans

/-!
How many requests of one identity the limiter lets count in one second.

The `INCR`s within the limit are bounded by the counter itself: a second meets at most two
of its lifetimes. The others come from requests that were in progress together. Until the
first of them has banned its identity all of them are; afterwards only those that had passed
the check of that ban before can still count, and these were in progress too when it was
written. `Surge` is this invariant, for the second that begins at a given time.

* `Reached.surge`: the invariant holds in every run.
* `rate_bound`: at most `2 * M + k` requests count in a second, with `k` in progress at once.
-/

namespace AllInDocker

/-- The request has passed the check of the block key of its identity, and is going to
count. -/
def Proc.Passed (p : Proc Phase) : Prop :=
  ∃ ks, ks <:+ p.req.limits.blockKeys.tail ∧ p.prog = .checks ks

/-- The event is the count of a request of the given identity in the second from `t` on. -/
def Event.CountsIn (who : Kind × String) (t : Time) (e : Event) : Prop :=
  e.IsIncr ∧ e.req.identity = who ∧ t ≤ e.time ∧ e.time < t + 1

instance (who : Kind × String) (t : Time) (e : Event) : Decidable (e.CountsIn who t) :=
  inferInstanceAs (Decidable (_ ∧ _))

/-- The event is a count over the limit for the given identity. -/
def Event.Hot (who : Kind × String) (e : Event) : Prop := e.Over ∧ e.req.identity = who

lemma isBlockKey_ownBlockKey (who : Kind × String) : IsBlockKey (ownBlockKey who) := by
  rcases who with ⟨_ | _ | _, v⟩
  · exact ⟨v, Or.inl rfl⟩
  · exact ⟨v, Or.inl rfl⟩
  · exact ⟨v, Or.inr rfl⟩

lemma Phase.checks_inj {ks ks' : List String} (h : checks ks = checks ks') : ks = ks' := by
  cases ks <;> cases ks' <;> simp_all [checks]

/-- A request that has passed its check is in progress. -/
lemma Proc.Passed.not_ended {p : Proc Phase} (h : p.Passed) (o : Except Stop Unit) :
    p.prog ≠ .ended o := by
  obtain ⟨ks, -, hp⟩ := h
  rw [hp]
  cases ks <;> simp [Phase.checks]

namespace Sys

variable {G : Sys Phase → Prop} {σ : Sys Phase} {i : ℕ} {p : Proc Phase} {e : Event} {s : Store}
  {ph : Phase} {who : Kind × String} {t : Time} {k : ℕ}

/-! ### Requests in progress -/

lemma mem_inProgress : i ∈ σ.inProgress who ↔
    ∃ p, σ.procs[i]? = some p ∧ p.req.identity = who ∧ ∀ o, p.prog ≠ .ended o := by
  have hout : ∀ ph : Phase, (Stages.outcome ph).isNone = true ↔ ∀ o, ph ≠ .ended o := by
    intro ph
    cases ph <;> simp [Stages.outcome]
  simp only [inProgress, Finset.mem_filter, Finset.mem_range, Option.any_eq_true,
    Bool.and_eq_true, decide_eq_true_eq, hout]
  constructor
  · rintro ⟨-, p, hp, hid, hend⟩
    exact ⟨p, hp, hid, hend⟩
  · rintro ⟨p, hp, hid, hend⟩
    exact ⟨(List.getElem?_eq_some_iff.mp hp).1, p, hp, hid, hend⟩

/-- A request that is to write its bans is in progress. -/
lemma mem_inProgress_of_bans {n : ℕ} {req : Request}
    (hp : σ.procs[n]? = some ⟨req, .bans req.limits.blockKeys⟩) (hwho : req.identity = who) :
    n ∈ σ.inProgress who := by
  refine mem_inProgress.mpr ⟨_, hp, hwho, fun o => ?_⟩
  rw [req.limits_blockKeys]
  simp [Phase.bans]

/-! ### The surge -/

/-- What can be said of the counts over the limit in the second from `t` on: all of them come
from requests that are still to ban their identity; or the ban has landed, they come from the
requests in `S`, and whoever is still to count in this second is one of these. -/
inductive Surge (who : Kind × String) (t : Time) (k : ℕ) (σ : Sys Phase) : Prop where
  | pending (h : ∀ e ∈ σ.log, e.Hot who → t ≤ e.time →
      σ.procs[e.id]? = some ⟨e.req, .bans e.req.limits.blockKeys⟩)
  | landed (S : Finset ℕ) (hcard : S.card ≤ k)
      (hhot : ∀ e ∈ σ.log, e.Hot who → t ≤ e.time → e.time < t + 1 → e.id ∈ S)
      (hpassed : σ.now < t + 1 → ∀ i p, σ.procs[i]? = some p → p.req.identity = who →
        p.Passed → i ∈ S)
      (hban : σ.now < t + 1 → ∃ y, σ.store (ownBlockKey who) = some ⟨.int 1, some y⟩ ∧
        t + 1 ≤ y)

/-- The ban has just landed: those who counted over the limit, and those who are still to
count, are in progress. -/
lemma Reached.surge_landed (h : Reached (fun σ => (σ.inProgress who).card ≤ k) σ)
    (hi : σ.procs[i]? = some p) (hf : Fires σ i p e s ph)
    (hpending : ∀ e ∈ σ.log, e.Hot who → t ≤ e.time →
      σ.procs[e.id]? = some ⟨e.req, .bans e.req.limits.blockKeys⟩)
    {e' : Event} (he' : e' ∈ σ.log) (hhot : e'.Hot who) (hle : t ≤ e'.time) (hid : e'.id = i) :
    Surge who t k (σ.after i p.req e s ph) := by
  have hp := hpending e' he' hhot hle
  rw [hid, hi, Option.some.injEq] at hp
  have hreq : p.req.identity = who := by
    rw [hp]
    exact hhot.2
  have hprog : p.prog = .ban (ownBlockKey who) p.req.limits.blockKeys.tail := by
    have hkeys := p.req.limits_blockKeys
    rw [hreq] at hkeys
    rw [hp] at hkeys ⊢
    simp only at hkeys ⊢
    rw [hkeys]
    rfl
  obtain ⟨hcmd, hph⟩ := hf.of_ban hprog
  have hnow : t ≤ σ.now := hle.trans (h.time_le e' he')
  refine .landed (σ.inProgress who) h.holds ?_ ?_ ?_
  · refine List.forall_mem_cons.mpr ⟨fun hnew => ?_, fun a ha hhot' hle' _ => ?_⟩
    · -- the command is a ban, not a count
      have := hnew.1.1
      rw [hcmd] at this
      simp [Command.banOf, Command.setEx, Command.incr] at this
    · exact mem_inProgress_of_bans (hpending a ha hhot' hle') hhot'.2
  · intro _ j q hj hwho hpassed
    rw [after_procs hi] at hj
    split_ifs at hj with hij
    · obtain rfl := Option.some.inj hj
      obtain ⟨ks, -, heq⟩ := hpassed
      have hunc := Phase.uncounted_checks ks
      rw [← heq, hph] at hunc
      cases htail : p.req.limits.blockKeys.tail <;> rw [htail] at hunc <;> exact hunc.elim
    · exact mem_inProgress.mpr ⟨q, hj, hwho, hpassed.not_ended⟩
  · intro _
    rcases hf.blockStep (isBlockKey_ownBlockKey who) with ⟨hne, -⟩ | ⟨-, hs⟩
    · exact absurd hcmd hne
    · exact ⟨_, hs, by linarith⟩

/-- A request passes the check of its ban by reading it. -/
lemma Fires.of_passed (h : Fires σ i p e s ph) (hpl : p.prog.Placed p.req.limits)
    (hq : (⟨p.req, ph⟩ : Proc Phase).Passed) :
    p.Passed ∨ e.cmd = .get (ownBlockKey p.req.identity) := by
  obtain ⟨ks, hks, hph⟩ := hq
  have hunc : ph.Uncounted := by
    rw [show ph = .checks ks from hph]
    exact Phase.uncounted_checks ks
  cases h with
  | refused n hp _ => cases ks <;> simp [Phase.checks] at hph
  | @passed n k' ks' hp _ =>
      rw [hp] at hpl
      have hkeys := p.req.limits_blockKeys
      rw [Phase.Placed, hkeys, List.suffix_cons_iff] at hpl
      rcases hpl with heq | hsuffix
      · right
        rw [List.cons.injEq] at heq
        rw [← heq.1]
        rfl
      · exact Or.inl ⟨k' :: ks', hsuffix, hp⟩
  | created n hp _ _ => exact hunc.elim
  | counted n hp _ _ => exact absurd hunc (Phase.not_uncounted_next_count _ _)
  | expired n hp _ => exact hunc.elim
  | gone n hp _ => exact hunc.elim
  | @banned n k' ks' hp => cases ks' <;> exact hunc.elim

/-- After the ban has landed: who counts over the limit in this second had passed the check
before, and nobody passes it any more. -/
lemma Reached.surge_after_landed (h : Reached G σ) (hi : σ.procs[i]? = some p)
    (hf : Fires σ i p e s ph) {S : Finset ℕ} (hcard : S.card ≤ k)
    (hhot : ∀ e ∈ σ.log, e.Hot who → t ≤ e.time → e.time < t + 1 → e.id ∈ S)
    (hpassed : σ.now < t + 1 → ∀ i p, σ.procs[i]? = some p → p.req.identity = who →
      p.Passed → i ∈ S)
    (hban : σ.now < t + 1 → ∃ y, σ.store (ownBlockKey who) = some ⟨.int 1, some y⟩ ∧
      t + 1 ≤ y) :
    Surge who t k (σ.after i p.req e s ph) := by
  refine .landed S hcard ?_ ?_ ?_
  · refine List.forall_mem_cons.mpr ⟨fun hnew _ hlt => ?_, hhot⟩
    rw [hf.time_eq] at hlt
    rw [hf.id_eq]
    have hcount : p.prog = .count := by
      refine hf.count_of_isIncr ?_
      rw [Event.IsIncr, hnew.1.1]
      rfl
    exact hpassed hlt i p hi (hf.req_eq ▸ hnew.2) ⟨[], List.nil_suffix, hcount⟩
  · intro hlt j q hj hwho hq
    rw [after_procs hi] at hj
    split_ifs at hj with hij
    · subst hij
      obtain rfl := Option.some.inj hj
      rcases hf.of_passed (h.placed hi) hq with hp | hget
      · exact hpassed hlt i p hi hwho hp
      · -- it would have read the ban
        obtain ⟨y, hy, hle⟩ := hban hlt
        have hlook : σ.store.lookup σ.now (ownBlockKey who) = some ⟨.int 1, some y⟩ :=
          TimedStore.lookup_eq_some_iff.mpr
            ⟨hy, fun t' ht' => Option.some.inj ht' ▸ hlt.trans_le hle⟩
        rw [show p.req.identity = who from hwho] at hget
        exact absurd (hf.refused_of_lookup hlook hget) (hq.not_ended _)
    · exact hpassed hlt j q hj hwho hq
  · intro hlt
    obtain ⟨y, hy, hle⟩ := hban hlt
    obtain ⟨y₁, y', heq, hs, hle'⟩ := h.block_kept hf (isBlockKey_ownBlockKey who) hy
    simp only [Entry.mk.injEq, Option.some.injEq, true_and] at heq
    subst heq
    exact ⟨y', hs, hle.trans hle'⟩

/-- The invariant of the second from `t` on. -/
lemma Reached.surge (h : Reached (fun σ => (σ.inProgress who).card ≤ k) σ) (t : Time) :
    Surge who t k σ := by
  induction h with
  | init _ => exact .pending (by simp [Sys.init])
  | @arrive σ hσ req _ ih =>
      rcases ih with hpending | ⟨S, hcard, hhot, hpassed, hban⟩
      · refine .pending fun e he hh hle => ?_
        have hp := hpending e he hh hle
        rw [List.getElem?_append_left (List.getElem?_eq_some_iff.mp hp).1]
        exact hp
      · refine .landed S hcard hhot (fun hlt i p hi hwho hq => ?_) hban
        rcases of_arrive hi with hi | rfl
        · exact hpassed hlt i p hi hwho hq
        · -- a new request begins with the check of its ban
          obtain ⟨ks, hks, hph⟩ := hq
          have hkeys : req.limits.blockKeys = ks := Phase.checks_inj hph
          have hlen := hks.length_le
          rw [← hkeys, req.limits_blockKeys] at hlen
          simp at hlen
  | @wait σ hσ d _ ih =>
      have hd : (0 : ℚ) ≤ d := d.2
      rcases ih with hpending | ⟨S, hcard, hhot, hpassed, hban⟩
      · exact .pending hpending
      · refine .landed S hcard hhot (fun hlt => hpassed ?_) fun hlt => hban ?_
        · simp only at hlt
          linarith
        · simp only at hlt
          linarith
  | @fire σ hσ i p e s ph hi hf _ ih =>
      rcases ih with hpending | ⟨S, hcard, hhot, hpassed, hban⟩
      · by_cases hown : ∃ e' ∈ σ.log, e'.Hot who ∧ t ≤ e'.time ∧ e'.id = i
        · obtain ⟨e', he', hh, hle, hid⟩ := hown
          exact hσ.surge_landed hi hf hpending he' hh hle hid
        · refine .pending (List.forall_mem_cons.mpr ⟨fun hnew _ => ?_, fun a ha hh hle => ?_⟩)
          · rw [hf.id_eq, after_procs hi, if_pos rfl, hf.over hnew.1, hf.req_eq]
          · have hne : i ≠ a.id := fun heq => hown ⟨a, ha, hh, hle, heq.symm⟩
            rw [after_procs hi, if_neg hne]
            exact hpending a ha hh hle
      · exact hσ.surge_after_landed hi hf hcard hhot hpassed hban

/-- The counts over the limit in one second come from at most `k` requests. -/
lemma Reached.countP_hot_le (h : Reached (fun σ => (σ.inProgress who).card ≤ k) σ) (t : Time) :
    (σ.log.countP fun e => e.CountsIn who t ∧ ¬ e.count ≤ (who.1.maxFreq : ℤ)) ≤ k := by
  set l := σ.log.filter fun e => e.CountsIn who t ∧ ¬ e.count ≤ (who.1.maxFreq : ℤ)
    with hl
  have hmem : ∀ e ∈ l, e ∈ σ.log ∧ e.CountsIn who t ∧ ¬ e.count ≤ (who.1.maxFreq : ℤ) := by
    intro e he
    rw [hl, List.mem_filter, decide_eq_true_eq] at he
    exact he
  have hhot : ∀ e ∈ l, e.Hot who := by
    intro e he
    obtain ⟨hlog, ⟨hincr, hwho, -, -⟩, hlt⟩ := hmem e he
    refine ⟨⟨h.incr_own e hlog hincr, ?_⟩, hwho⟩
    rw [e.req.limits_maxFreq, hwho]
    omega
  have hnodup : (l.map Event.id).Nodup := by
    refine List.pairwise_map.mpr ((h.incr_once.filter _).imp_of_mem fun {a b} ha hb hne => ?_)
    exact hne (hmem a ha).2.1.1 (hmem b hb).2.1.1
  have hsub : ∃ S : Finset ℕ, S.card ≤ k ∧ (l.map Event.id).toFinset ⊆ S := by
    rcases h.surge t with hpending | ⟨S, hcard, hS, -, -⟩
    · refine ⟨σ.inProgress who, h.holds, fun i hi => ?_⟩
      rw [List.mem_toFinset, List.mem_map] at hi
      obtain ⟨e, he, rfl⟩ := hi
      exact mem_inProgress_of_bans (hpending e (hmem e he).1 (hhot e he) (hmem e he).2.1.2.2.1)
        (hhot e he).2
    · refine ⟨S, hcard, fun i hi => ?_⟩
      rw [List.mem_toFinset, List.mem_map] at hi
      obtain ⟨e, he, rfl⟩ := hi
      obtain ⟨hlog, ⟨-, -, hle, hlt⟩, -⟩ := hmem e he
      exact hS e hlog (hhot e he) hle hlt
  obtain ⟨S, hcard, hS⟩ := hsub
  calc _ = (l.map Event.id).length := by rw [List.countP_eq_length_filter, List.length_map]
    _ = (l.map Event.id).toFinset.card := (List.toFinset_card_of_nodup hnodup).symm
    _ ≤ S.card := Finset.card_le_card hS
    _ ≤ k := hcard

/-- The counts within the limit in one second are at most those of two lifetimes. -/
lemma Reached.countP_cool_le (h : Reached G σ) (who : Kind × String) (t : Time) :
    (σ.log.countP fun e => e.CountsIn who t ∧ e.count ≤ (who.1.maxFreq : ℤ)) ≤
      2 * who.1.maxFreq := by
  obtain ⟨W, hW, hshows⟩ := h.exists_shows who.2
  have hbound := hW.countP_window_le t who.1.maxFreq
  rw [hshows.log, List.countP_filter] at hbound
  refine le_trans (List.countP_mono_left fun e he hcool => ?_) hbound
  simp only [Bool.and_eq_true, decide_eq_true_eq] at hcool ⊢
  obtain ⟨⟨hincr, hwho, hle, hlt⟩, hcount⟩ := hcool
  refine ⟨⟨hle, hlt, hcount⟩, ?_⟩
  rw [h.incr_own e he hincr, e.req.limits_incrKey, hwho]

end Sys

/-- The rate of an identity: with all commands succeeding and at most `k` of its requests in
progress at any time, at most `2 * M + k` of its requests count in any one second, for the
limit `M` of its kind. -/
theorem rate_bound (acts : List Action) (who : Kind × String) (k : ℕ)
    (hok : (limiter acts).AllOk)
    (hk : ∀ pre, pre <+: acts → ((limiter pre).inProgress who).card ≤ k) (t : Time) :
    ((limiter acts).log.countP fun e => e.CountsIn who t) ≤ 2 * who.1.maxFreq + k := by
  simp only [limiter_inProgress] at hk
  rw [Sys.AllOk, limiter_log] at hok
  rw [limiter_log]
  have hreach : Sys.Reached (fun σ => (σ.inProgress who).card ≤ k) (Sys.run acts) :=
    Sys.reached_run hok hk
  rw [List.countP_eq_countP_filter_add _ _ fun e => e.count ≤ (who.1.maxFreq : ℤ),
    List.countP_filter, List.countP_filter]
  refine add_le_add (le_trans (le_of_eq ?_) (hreach.countP_cool_le who t))
    (le_trans (le_of_eq ?_) (hreach.countP_hot_le t))
  · exact List.countP_congr fun e _ => by simp
  · exact List.countP_congr fun e _ => by simp

/-- Eleven requests from one address, one at a time: ten count, and no more than nineteen
could have. -/
theorem rate_bound_of_eleven :
    ((limiter (Sys.oneByOne (List.replicate 11 { remoteAddr := "a" }))).log.countP fun e =>
      e.CountsIn (.ip, "a") 0) = 10 ∧
    ((limiter (Sys.oneByOne (List.replicate 11 { remoteAddr := "a" }))).log.countP fun e =>
      e.CountsIn (.ip, "a") 0) ≤ 2 * 9 + 1 := by
  refine ⟨by decide +kernel, rate_bound _ _ 1 (by decide +kernel) (fun pre hpre => ?_) 0⟩
  have hall : ∀ pre ∈ (Sys.oneByOne (List.replicate 11 { remoteAddr := "a" })).inits,
      ((limiter pre).inProgress (.ip, "a")).card ≤ 1 := by decide +kernel
  exact hall pre ((List.mem_inits _ _).mpr hpre)

end AllInDocker
