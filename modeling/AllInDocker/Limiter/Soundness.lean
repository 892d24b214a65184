import AllInDocker.Limiter.Bans

/-!
For whom the limiter bans.

A request that bans has counted over its limit, so its counter had at least as many `INCR`s
in that lifetime; but the counter of an identity is named by its string alone, without the
kind of the identity.

* `BanSound`: whoever bans does so for requests of its own identity.
* `banSound_of_noClash`: this holds in every run in which no string is used under two kinds.
* `ban_for_other_kind`: and fails as soon as a cookie is the text of a token.
-/

namespace AllInDocker

/-- The requests of an identity that counted in the lifetime of the `INCR` `e`. -/
def fellowsOf (log : List Event) (e : Event) (who : Kind × String) : Finset ℕ :=
  ((log.filter fun e' => e'.cmd = e.cmd ∧ e'.life = e.life ∧ e'.req.identity = who).map
    Event.id).toFinset

/-- Whenever a request writes a block key, more requests of the same identity than its limit
allows have counted in the lifetime of the counter in which it counted itself. -/
def BanSound (log : List Event) : Prop :=
  ∀ w ∈ log, w.cmd.name = .set → ∃ e ∈ log, e.id = w.id ∧ e.cmd = .incr w.req.limits.incrKey ∧
    w.req.limits.maxFreq + 1 ≤ (fellowsOf log e w.req.identity).card

instance (log : List Event) : Decidable (BanSound log) :=
  inferInstanceAs (Decidable (∀ w ∈ log, _ → _))

/-- No two requests are known by the same string under different kinds. -/
def NoClash (acts : List Action) : Prop :=
  ∀ r r', .arrive r ∈ acts → .arrive r' ∈ acts → r.identity.2 = r'.identity.2 →
    r.identity.1 = r'.identity.1

namespace Sys

variable {P : Type} [Stages P]

/-- The requests of the system are those that arrived. -/
lemma arrive_mem_of_procs (acts : List Action) :
    ∀ p ∈ (run acts : Sys P).procs, .arrive p.req ∈ acts := by
  induction acts using List.reverseRecOn with
  | nil => simp [run_nil, init]
  | append_singleton acts a ih =>
      intro p hp
      rw [run_concat] at hp
      cases a with
      | arrive req =>
          rcases List.mem_append.mp hp with hp | hp
          · exact List.mem_append_left _ (ih p hp)
          · rw [List.mem_singleton] at hp
            subst hp
            simp
      | wait d => exact List.mem_append_left _ (ih p hp)
      | exec i link =>
          refine List.mem_append_left _ ?_
          simp only [step] at hp
          split at hp
          · exact ih p hp
          · rename_i p₀ hi
            split at hp
            · exact ih p hp
            · rcases List.mem_or_eq_of_mem_set hp with hp | rfl
              · exact ih p hp
              · exact ih p₀ (List.mem_of_getElem? hi)

variable {G : Sys Phase → Prop} {σ : Sys Phase}

/-- The limit of a request that counted over it was passed in the lifetime of its counter, by
requests of whatever identity. -/
lemma Reached.lt_countP_life (h : Reached G σ) {e : Event} (he : e ∈ σ.log) (hover : e.Over) :
    e.req.limits.maxFreq < σ.log.countP fun e' => e'.cmd = e.cmd ∧ e'.life = e.life := by
  obtain ⟨hcmd, hlt⟩ := hover
  rw [e.req.limits_incrKey] at hcmd
  obtain ⟨W, hW, hshows⟩ := h.exists_shows e.req.identity.2
  have hmem : e ∈ W.log := by
    rw [hshows.log]
    exact List.mem_filter.mpr ⟨he, by simp [hcmd]⟩
  have hcount := hW.le_countP_life hmem (n := e.count.toNat) (by
    have := (hW.inv.logged e hmem).1
    simp only [reading] at this ⊢
    omega)
  rw [hshows.log, List.countP_filter] at hcount
  simp only [hcmd]
  calc e.req.limits.maxFreq < e.count.toNat := by omega
    _ ≤ _ := hcount
    _ = _ := List.countP_congr fun e' _ => by
        simp only [Bool.and_eq_true, decide_eq_true_eq]
        exact and_comm

/-- No request counts twice, so the `INCR`s of a lifetime are as many requests. -/
lemma Reached.card_fellowsOf (h : Reached G σ) {e : Event} (hincr : e.IsIncr)
    (who : Kind × String) : (fellowsOf σ.log e who).card = σ.log.countP fun e' =>
      e'.cmd = e.cmd ∧ e'.life = e.life ∧ e'.req.identity = who := by
  rw [fellowsOf, List.toFinset_card_of_nodup, List.length_map, List.countP_eq_length_filter]
  refine List.pairwise_map.mpr ((h.incr_once.filter _).imp_of_mem fun {a b} ha hb hne => ?_)
  rw [List.mem_filter, decide_eq_true_eq] at ha hb
  refine hne ?_ ?_
  · rw [Event.IsIncr, ha.2.1]
    exact hincr
  · rw [Event.IsIncr, hb.2.1]
    exact hincr

/-- A request that counts under the same counter is known by the same string. -/
lemma Reached.identity_of_incr (h : Reached G σ) {e e' : Event} (he : e ∈ σ.log)
    (he' : e' ∈ σ.log) (hincr : e.IsIncr) (hcmd : e'.cmd = e.cmd) :
    e'.req.identity.2 = e.req.identity.2 := by
  have hown := h.incr_own e he hincr
  have hown' := h.incr_own e' he' (by rw [Event.IsIncr, hcmd]; exact hincr)
  rw [hcmd, hown, e.req.limits_incrKey, e'.req.limits_incrKey] at hown'
  simp only [Command.incr, Command.mk.injEq, List.cons.injEq, Arg.str.injEq, counterKey_inj,
    true_and, and_true] at hown'
  exact hown'.symm

end Sys

/-- In every run in which no string is used under two kinds, whoever bans does so for
requests of its own identity. -/
theorem banSound_of_noClash (acts : List Action) (hok : (limiter acts).AllOk)
    (hclash : NoClash acts) : BanSound (limiter acts).log := by
  rw [limiter_log]
  rw [Sys.AllOk, limiter_log] at hok
  have hreach : Sys.Reached (fun _ => True) (Sys.run acts) := Sys.reached_run hok (by simp)
  have harrived : ∀ e ∈ (Sys.run acts : Sys Phase).log, .arrive e.req ∈ acts := by
    intro e he
    obtain ⟨p, hp, hreq⟩ := hreach.owner e he
    exact hreq ▸ Sys.arrive_mem_of_procs acts p (List.mem_of_getElem? hp)
  intro w hw hset
  obtain ⟨e, he, hid, hover⟩ := hreach.over_of_set w hw hset
  have hincr : e.IsIncr := by
    rw [Event.IsIncr, hover.1]
    rfl
  have hreq : e.req = w.req := by
    obtain ⟨p, hp, hpe⟩ := hreach.owner e he
    obtain ⟨p', hp', hpw⟩ := hreach.owner w hw
    rw [hid, hp', Option.some.injEq] at hp
    rw [← hpe, ← hpw, hp]
  refine ⟨e, he, hid, hreq ▸ hover.1, ?_⟩
  rw [← hreq, hreach.card_fellowsOf hincr]
  refine (hreach.lt_countP_life he hover).trans_le (List.countP_mono_left fun e' he' hsame => ?_)
  -- the same counter is the same string, hence the same identity
  simp only [decide_eq_true_eq] at hsame ⊢
  have hstr := hreach.identity_of_incr he he' hincr hsame.1
  exact ⟨hsame.1, hsame.2, Prod.ext (hclash _ _ (harrived e' he') (harrived e he) hstr) hstr⟩

/-- Ten requests with one token: the tenth bans, and for ten requests of that token. -/
theorem banSound_of_ten_tokens :
    (limiter (Sys.oneByOne
      (List.replicate 10 { authorization := some "a", remoteAddr := "10.0.0.1" }))).AllOk ∧
    (∃ w ∈ (limiter (Sys.oneByOne
      (List.replicate 10 { authorization := some "a", remoteAddr := "10.0.0.1" }))).log,
      w.cmd.name = .set) ∧
    BanSound (limiter (Sys.oneByOne
      (List.replicate 10 { authorization := some "a", remoteAddr := "10.0.0.1" }))).log := by
  have hok : (limiter (Sys.oneByOne
      (List.replicate 10 { authorization := some "a", remoteAddr := "10.0.0.1" }))).AllOk := by
    decide +kernel
  refine ⟨hok, by decide +kernel, banSound_of_noClash _ hok ?_⟩
  have harr : ∀ r, Action.arrive r ∈ Sys.oneByOne
      (List.replicate 10 { authorization := some "a", remoteAddr := "10.0.0.1" }) →
      r.identity = (.token, "a") := by
    simp [Sys.oneByOne, List.replicate, Request.identity]
  intro r r' hr hr' _
  rw [harr r hr, harr r' hr']

/-- Nine requests with the token `a`, then the first one ever with the cookie `a`, from
another address: it is banned, with its address, for the requests of the token. -/
theorem ban_for_other_kind :
    (limiter (Sys.oneByOne
      (List.replicate 9 { authorization := some "a", remoteAddr := "10.0.0.1" } ++
        [{ httpCookie := some "a", remoteAddr := "10.0.0.2" }]))).AllOk ∧
    ¬ BanSound (limiter (Sys.oneByOne
      (List.replicate 9 { authorization := some "a", remoteAddr := "10.0.0.1" } ++
        [{ httpCookie := some "a", remoteAddr := "10.0.0.2" }]))).log := by
  decide +kernel

end AllInDocker
