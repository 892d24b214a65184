import AllInDocker.Wrapper.Isolation.Steps

/-!
Callers on one pool work on fresh sessions.

* `Sound` is the invariant of the pool that follows from the protocol, and
  `isolated_of_harmless` the result.
* `selected_database_leaks`: two callers that select another database are enough for a third
  to work on it.
-/

namespace AllInDocker

open Coro

/-! ### Every run -/

/-- The invariant of the pool: idle connections are fresh, every caller obeys the protocol
from a stage that is true of its connection, and all commands so far were executed on fresh
sessions. -/
structure Sound (conf : ServerConf) (σ : Pool) : Prop where
  idle : IdleFresh σ.shared.conns
  caller : ∀ (i : ℕ) (c : Caller), σ.callers[i]? = some c →
    ∃ k, Obeys (lending conf) anywhere k c.prog ∧ Holds conf σ.shared.conns i c.hands k
  log : σ.Isolated

section Run

variable {conf : ServerConf} {σ : Pool}

/-- A harmless call obeys the protocol. -/
lemma PoolCall.Harmless.obeys {job : PoolCall} (h : job.Harmless conf) (opts : Options)
    (k : Stage) : Obeys (lending conf) anywhere k (job.prog opts) := by
  cases job with
  | direct c => exact obeys_doCommand opts h
  | pipeline cs => exact obeys_commitPipeline (Wrapper.new opts) h

lemma Sound.call (h : Sound conf σ) (opts : Options) {job : PoolCall}
    (hjob : job.Harmless conf) : Sound conf (σ.step conf (.call opts job)) := by
  refine ⟨h.idle, fun i c hc => ?_, h.log⟩
  simp only [Pool.step, List.getElem?_append] at hc
  split_ifs at hc with hlt
  · exact h.caller i c hc
  · obtain rfl := List.mem_singleton.mp (List.mem_of_getElem? hc)
    exact ⟨.free, hjob.obeys opts .free, Or.inl rfl⟩

lemma Sound.drop (h : Sound conf σ) (n : ℕ) : Sound conf (σ.step conf (.drop n)) := by
  simp only [Pool.step]
  split
  · rename_i c hc
    split_ifs with hplace
    · rw [Shared.close, List.modify_eq_set_getElem?, hc]
      refine ⟨h.idle.set (by simp), fun j cl hj => ?_, h.log⟩
      obtain ⟨k, hobeys, hholds⟩ := h.caller j cl hj
      exact ⟨k, hobeys, hholds.apart (apart_set hc (Or.inr hplace)) (Nat.succ_ne_self j).symm⟩
    · exact h
  · exact h

lemma Sound.perform (h : Sound conf σ) (i : ℕ) (ch : Choice) :
    Sound conf (σ.step conf (.step i ch)) := by
  simp only [Pool.step]
  split
  · rename_i hands op f hi
    obtain ⟨k, hobeys, hholds⟩ := h.caller i _ hi
    have hkept := kept_perform ch h.idle hholds hobeys.1
    refine ⟨hkept.idle, fun j c hj => ?_, fun x hx => ?_⟩
    · rw [List.getElem?_set] at hj
      split_ifs at hj with hij hlt
      · obtain rfl := Option.some.inj hj
        subst hij
        exact ⟨_, hobeys.2 _, hkept.holds⟩
      · obtain ⟨k', hobeys', hholds'⟩ := h.caller j c hj
        exact ⟨k', hobeys', hholds'.apart hkept.apart (Ne.symm hij)⟩
    · rcases hkept.log x hx with hx | hx
      · exact h.log x hx
      · exact hx
  · exact h

/-- The pool keeps its callers apart as long as each of them leaves a fresh session fresh: in
every run of harmless calls, in any interleaving and with any failures, every direct command
and the first command of every pipeline is executed on a connection that is authenticated, has
database 0 selected, no `MULTI` open and nothing watched. -/
theorem isolated_of_harmless (conf : ServerConf) (acts : List PoolAct)
    (hcalls : ∀ opts job, .call opts job ∈ acts → job.Harmless conf) :
    (Pool.run conf acts).Isolated := by
  suffices h : Sound conf (Pool.run conf acts) from h.log
  induction acts using List.reverseRecOn with
  | nil =>
      exact ⟨by simp [IdleFresh, Pool.run, Pool.init], by simp [Pool.run, Pool.init],
        by simp [Pool.Isolated, Pool.run, Pool.init]⟩
  | append_singleton acts a ih =>
      have hprev := ih fun opts job hjob => hcalls opts job (List.mem_append_left _ hjob)
      rw [Pool.run, List.foldl_append]
      cases a with
      | call opts job => exact hprev.call opts (hcalls opts job (by simp))
      | step i ch => exact hprev.perform i ch
      | drop n => exact hprev.drop n

end Run

/-- A server as the wrapper expects it. -/
def usualConf : ServerConf := ⟨some "password", 16, fun _ => true⟩

/-- An operation without a failure, on a server that answers `OK`. -/
def smooth (take : Option ℕ) : Choice := ⟨false, take, 0, fun _ => ⟨false, fun _ => .str "OK"⟩⟩

/-- A call of a direct command with the default options. -/
def directCall (c : Command) : PoolAct := .call {} (.direct c)

/-- Operations of one caller without a failure. -/
def smoothSteps (i n : ℕ) (take : Option ℕ) : List PoolAct :=
  List.replicate n (.step i (smooth take))

/-- Two callers one after the other, the second on the connection of the first. -/
def twoGets : List PoolAct :=
  directCall (.get "a") :: smoothSteps 0 7 none ++
    (directCall (.get "b") :: smoothSteps 1 2 none ++ smoothSteps 1 4 (some 1))

theorem isolated_of_two_gets :
    (Pool.run usualConf twoGets).shared.log.length = 2 ∧ (Pool.run usualConf twoGets).Isolated := by
  refine ⟨by decide +kernel, isolated_of_harmless usualConf _ fun opts job hjob => ?_⟩
  have hget : ∀ k, PoolCall.Harmless usualConf (.direct (.get k)) := fun k =>
    Or.inr fun o _ => rfl
  simp only [twoGets, directCall, smoothSteps, List.replicate, List.cons_append, List.nil_append,
    List.mem_cons, reduceCtorEq, PoolAct.call.injEq, List.not_mem_nil, or_false, false_or] at hjob
  rcases hjob with ⟨-, rfl⟩ | ⟨-, rfl⟩
  · exact hget "a"
  · exact hget "b"

/-- Two callers select database 5 at the same time and return their connections. A third
takes one of them, closes it by connecting again, and gets the other one, which it does not
have to authenticate. -/
def twoSelects : List PoolAct :=
  directCall ⟨.select, [.num 5]⟩ :: directCall ⟨.select, [.num 5]⟩ :: smoothSteps 0 6 none ++
    smoothSteps 1 6 none ++ smoothSteps 0 1 none ++ smoothSteps 1 1 none ++
    (directCall (.get "k") :: smoothSteps 2 1 none ++ smoothSteps 2 1 (some 1) ++
      smoothSteps 2 1 (some 3) ++ smoothSteps 2 2 none)

/-- The third caller works on database 5. -/
theorem selected_database_leaks : ¬ (Pool.run usualConf twoSelects).Isolated := by
  decide +kernel

end AllInDocker
