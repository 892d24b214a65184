import AllInDocker.Lib.Coroutine

/-!
Coroutines with variables, run by one worker that shares the variables between all of them.

A program reads and writes variables and makes outside calls (`VarOp`). Control passes to
another program only at an outside call, so between two of them a program runs undisturbed:
`segment` is such a stretch.

* `Worker` holds one environment for all threads; `Worker.resume` lets one thread run to its
  next outside call. `runLocal` runs the same thread with an environment of its own.
* `localize` removes the variables of a program altogether by giving them to it alone.
* `Confined c W p` is the discipline that makes sharing harmless: `p` reads a variable only
  if it has written it since its last outside call, or if it has written it at all and the
  variable is one to which every program writes the same value (`c x = some v`).
* `runShared_eq_runLocal`: threads under this discipline behave on a shared environment, in
  every order of resumptions and for all answers, exactly as each does alone.
-/

namespace Coro

variable {X : Type} {V : X → Type} {E : Type} {A : E → Type} {ω α β : Type}

/-- The calls of a program with variables. -/
inductive VarOp (V : X → Type) (E : Type) where
  | read (x : X)
  | write (x : X) (v : V x)
  | ext (e : E)

/-- What a call of a program with variables is answered with. -/
@[reducible] def VarOp.Ans (A : E → Type) : VarOp V E → Type
  | .read x => V x
  | .write _ _ => Unit
  | .ext e => A e

/-- A program with variables of types `V` that makes outside calls answered by `A`. -/
abbrev VarProg (V : X → Type) (A : E → Type) (ω α : Type) := Coro (VarOp V E) (VarOp.Ans A) ω α

/-- Read a variable. -/
def getVar (x : X) : VarProg V A ω (V x) := perform (VarOp.read x)

/-- Write a variable. -/
def setVar (x : X) (v : V x) : VarProg V A ω Unit := perform (VarOp.write x v)

/-- Make an outside call. -/
def outside (e : E) : VarProg V A ω (A e) := perform (VarOp.ext e)

/-- A coroutine without variables as a program with variables. -/
def lift : Coro E A ω α → VarProg V A ω α
  | ret a => ret a
  | halt w => halt w
  | call e k => call (.ext e) fun a => lift (k a)

variable {E' : Type} {A' : E' → Type}

/-- Implement the outside calls of a program by coroutines over other calls. -/
def expand (t : (e : E) → Coro E' A' ω (A e)) : VarProg V A ω α → VarProg V A' ω α
  | ret a => ret a
  | halt w => halt w
  | call (.read x) k => call (.read x) fun v => expand t (k v)
  | call (.write x v) k => call (.write x v) fun u => expand t (k u)
  | call (.ext e) k => (lift (t e)).bind fun a => expand t (k a)

/-! ### Stretches between outside calls -/

section Env

variable [DecidableEq X]

/-- Run the reads and writes of a program up to its next outside call or its end. -/
def segment : ((x : X) → V x) → VarProg V A ω α → ((x : X) → V x) × VarProg V A ω α
  | env, ret a => (env, ret a)
  | env, halt w => (env, halt w)
  | env, call (.read x) k => segment env (k (env x))
  | env, call (.write x v) k => segment (Function.update env x v) (k ())
  | env, call (.ext e) k => (env, call (.ext e) k)

/-- The program with its variables given to it alone: only the outside calls remain. -/
def localize : ((x : X) → V x) → VarProg V A ω α → Coro E A ω α
  | _, ret a => ret a
  | _, halt w => halt w
  | env, call (.read x) k => localize env (k (env x))
  | env, call (.write x v) k => localize (Function.update env x v) (k ())
  | env, call (.ext e) k => call e fun a => localize env (k a)

@[simp] lemma localize_lift_bind (p : Coro E A ω α) (f : α → VarProg V A ω β)
    (env : (x : X) → V x) :
    localize env ((lift p).bind f) = p.bind fun a => localize env (f a) := by
  induction p with
  | ret a => rfl
  | halt w => rfl
  | call e k ih =>
      simp only [lift, call_bind, localize]
      congr 1
      funext a
      exact ih a

/-- The program stands at an outside call or at its end. -/
def AtYield : VarProg V A ω α → Prop
  | call (.read _) _ => False
  | call (.write _ _) _ => False
  | _ => True

lemma atYield_segment (p : VarProg V A ω α) (env : (x : X) → V x) :
    AtYield (segment env p).2 := by
  induction p generalizing env with
  | ret a => trivial
  | halt w => trivial
  | call op k ih =>
      cases op with
      | read x => exact ih _ _
      | write x v => exact ih _ _
      | ext e => trivial

end Env

/-! ### The discipline -/

/-- The program reads only variables of `W`, variables it has written since its last outside
call, and variables with a value fixed by `c` it has written at all; and it writes no other
value than that to those. -/
def Confined (c : (x : X) → Option (V x)) : Set X → VarProg V A ω α → Prop
  | _, ret _ => True
  | _, halt _ => True
  | W, call (.read x) k => x ∈ W ∧ ∀ v, Confined c W (k v)
  | W, call (.write x v) k => (∀ u, c x = some u → v = u) ∧ Confined c (insert x W) (k ())
  | W, call (.ext _) k => ∀ a, Confined c (W ∩ {x | (c x).isSome}) (k a)

variable {c : (x : X) → Option (V x)}

lemma Confined.mono {p : VarProg V A ω α} {W W' : Set X} (h : Confined c W p) (hW : W ⊆ W') :
    Confined c W' p := by
  induction p generalizing W W' with
  | ret a => trivial
  | halt w => trivial
  | call op k ih =>
      cases op with
      | read x => exact ⟨hW h.1, fun v => ih v (h.2 v) hW⟩
      | write x v => exact ⟨h.1, ih () h.2 (Set.insert_subset_insert hW)⟩
      | ext e => exact fun a => ih a (h a) (Set.inter_subset_inter_left _ hW)

/-- Outside calls keep the fixed variables known. -/
lemma Confined.lift_bind (p : Coro E A ω α) {f : α → VarProg V A ω β} {W : Set X}
    (hf : ∀ a, Confined c (W ∩ {x | (c x).isSome}) (f a)) : Confined c W ((lift p).bind f) := by
  induction p generalizing W with
  | ret a => exact (hf a).mono Set.inter_subset_left
  | halt w => trivial
  | call e k ih =>
      intro a
      refine ih a fun b => ?_
      rw [Set.inter_assoc, Set.inter_self]
      exact hf b

/-- Implementing the outside calls by coroutines without variables keeps the discipline. -/
lemma Confined.expand {E' : Type} {A' : E' → Type} (t : (e : E) → Coro E' A' ω (A e))
    {p : VarProg V A ω α} {W : Set X} (h : Confined c W p) : Confined c W (expand t p) := by
  induction p generalizing W with
  | ret a => trivial
  | halt w => trivial
  | call op k ih =>
      cases op with
      | read x => exact ⟨h.1, fun v => ih v (h.2 v)⟩
      | write x v => exact ⟨h.1, ih () h.2⟩
      | ext e => exact Confined.lift_bind (t e) fun a => ih a (h a)

/-- At an outside call only the fixed variables count. -/
lemma Confined.restrict {p : VarProg V A ω α} {W : Set X} (hp : AtYield p)
    (h : Confined c W p) : Confined c (W ∩ {x | (c x).isSome}) p := by
  cases p with
  | ret a => trivial
  | halt w => trivial
  | call op k =>
      cases op with
      | read x => exact hp.elim
      | write x v => exact hp.elim
      | ext e =>
          intro a
          rw [Set.inter_assoc, Set.inter_self]
          exact h a

section Env

variable [DecidableEq X]

/-- A stretch never takes a fixed variable away from its value. -/
lemma segment_fixed {p : VarProg V A ω α} {W : Set X} (hp : Confined c W p)
    {env : (x : X) → V x} {x : X} {u : V x} (hx : c x = some u) (he : env x = u) :
    (segment env p).1 x = u := by
  induction p generalizing W env with
  | ret a => exact he
  | halt w => exact he
  | call op k ih =>
      cases op with
      | read y => exact ih (env y) (hp.2 (env y)) he
      | write y v =>
          refine ih () hp.2 ?_
          by_cases hxy : x = y
          · subst hxy
            rw [Function.update_self]
            exact hp.1 u hx
          · rw [Function.update_of_ne hxy, he]
      | ext e => exact he

/-- Two environments agree on the variables of `W`, and the fixed ones have their value. -/
def Agree (c : (x : X) → Option (V x)) (W : Set X) (g l : (x : X) → V x) : Prop :=
  ∀ x ∈ W, g x = l x ∧ ∀ u, c x = some u → g x = u

lemma Agree.write {W : Set X} {g l : (x : X) → V x} (h : Agree c W g l) {x : X} {v : V x}
    (hv : ∀ u, c x = some u → v = u) :
    Agree c (insert x W) (Function.update g x v) (Function.update l x v) := by
  intro y hy
  by_cases hyx : y = x
  · subst hyx
    simpa using hv
  · rw [Function.update_of_ne hyx, Function.update_of_ne hyx]
    exact h y (hy.resolve_left hyx)

/-- A stretch of a confined program does the same on two environments that agree. -/
lemma segment_agree {p : VarProg V A ω α} {W : Set X} (hp : Confined c W p)
    {g l : (x : X) → V x} (h : Agree c W g l) :
    (segment g p).2 = (segment l p).2 ∧
      ∃ W', Confined c W' (segment g p).2 ∧ Agree c W' (segment g p).1 (segment l p).1 := by
  induction p generalizing W g l with
  | ret a => exact ⟨rfl, W, trivial, h⟩
  | halt w => exact ⟨rfl, W, trivial, h⟩
  | call op k ih =>
      cases op with
      | read x =>
          have hx : g x = l x := (h x hp.1).1
          have hk := ih (g x) (hp.2 (g x)) h
          simp only [segment]
          rw [← hx]
          exact hk
      | write x v => exact ih () hp.2 (h.write hp.1)
      | ext e => exact ⟨rfl, W, hp, h⟩

end Env

/-! ### Threads on shared and on own variables -/

/-- A request in progress: the outside calls answered so far and what is left to do. -/
structure Thread (V : X → Type) (A : E → Type) (ω α : Type) where
  trace : List E
  prog : VarProg V A ω α

/-- A request that has not run yet. -/
def Thread.start (p : VarProg V A ω α) : Thread V A ω α := ⟨[], p⟩

section Env

variable [DecidableEq X]

/-- Resume a thread: answer the call it stands at, if any, and run to the next one. The
answer to its `n`-th call `e` is `ρ n e`. -/
def advance (ρ : ℕ → (e : E) → A e) (env : (x : X) → V x) (t : Thread V A ω α) :
    ((x : X) → V x) × Thread V A ω α :=
  match t.prog with
  | ret _ => (env, t)
  | halt _ => (env, t)
  | call (.ext e) k =>
      ((segment env (k (ρ t.trace.length e))).1,
        ⟨t.trace ++ [e], (segment env (k (ρ t.trace.length e))).2⟩)
  | call (.read x) k =>
      ((segment env (call (.read x) k)).1, ⟨t.trace, (segment env (call (.read x) k)).2⟩)
  | call (.write x v) k =>
      ((segment env (call (.write x v) k)).1, ⟨t.trace, (segment env (call (.write x v) k)).2⟩)

/-- The thread alone, with variables of its own, after `n` resumptions. -/
def runLocal (ρ : ℕ → (e : E) → A e) (env : (x : X) → V x) (t : Thread V A ω α) (n : ℕ) :
    ((x : X) → V x) × Thread V A ω α :=
  (fun s => advance ρ s.1 s.2)^[n] (env, t)

/-- One worker: its variables and the threads that share them. -/
structure Worker (V : X → Type) (A : E → Type) (ω α : Type) where
  env : (x : X) → V x
  threads : List (Thread V A ω α)

/-- Let thread `i` run to its next outside call. -/
def Worker.resume (ρ : ℕ → ℕ → (e : E) → A e) (w : Worker V A ω α) (i : ℕ) : Worker V A ω α :=
  match w.threads[i]? with
  | none => w
  | some t => ⟨(advance (ρ i) w.env t).1, w.threads.set i (advance (ρ i) w.env t).2⟩

/-- Resume the threads in the given order. -/
def runShared (ρ : ℕ → ℕ → (e : E) → A e) (w : Worker V A ω α) (sched : List ℕ) :
    Worker V A ω α :=
  sched.foldl (Worker.resume ρ) w

/-- What is known of a thread between resumptions: it is confined to fixed variables that
have their value, both in the shared environment and in its own. -/
def Rests (c : (x : X) → Option (V x)) (g l : (x : X) → V x) (t : Thread V A ω α) : Prop :=
  ∃ W, Confined c W t.prog ∧ ∀ x ∈ W, ∃ u, c x = some u ∧ g x = u ∧ l x = u

omit [DecidableEq X] in
/-- Other threads do not disturb a resting thread: they keep the fixed variables. -/
lemma Rests.of_fixed {g g' l : (x : X) → V x} {t : Thread V A ω α} (h : Rests c g l t)
    (hg : ∀ x u, c x = some u → g x = u → g' x = u) : Rests c g' l t := by
  obtain ⟨W, hW, hfix⟩ := h
  refine ⟨W, hW, fun x hx => ?_⟩
  obtain ⟨u, hu, hgx, hlx⟩ := hfix x hx
  exact ⟨u, hu, hg x u hu hgx, hlx⟩

lemma rests_of_segment {p : VarProg V A ω α} {W : Set X} (hp : Confined c W p)
    {g l : (x : X) → V x} (hfix : ∀ x ∈ W, ∃ u, c x = some u ∧ g x = u ∧ l x = u)
    (tr : List E) :
    (segment g p).2 = (segment l p).2 ∧
      Rests c (segment g p).1 (segment l p).1 ⟨tr, (segment g p).2⟩ := by
  have hagree : Agree c W g l := by
    intro x hx
    obtain ⟨u, hu, hg, hl⟩ := hfix x hx
    refine ⟨by rw [hg, hl], fun u' hu' => ?_⟩
    rw [hu, Option.some.injEq] at hu'
    rw [hg, hu']
  obtain ⟨heq, W', hW', hag⟩ := segment_agree hp hagree
  refine ⟨heq, W' ∩ {x | (c x).isSome}, hW'.restrict (atYield_segment p g), fun x hx => ?_⟩
  obtain ⟨u, hu⟩ := Option.isSome_iff_exists.mp hx.2
  obtain ⟨hgl, hgu⟩ := hag x hx.1
  exact ⟨u, hu, hgu u hu, by rw [← hgl, hgu u hu]⟩

/-- A resting thread advances alike on the shared and on its own variables, and rests
again. -/
lemma Rests.advance {ρ : ℕ → (e : E) → A e} {g l : (x : X) → V x} {t : Thread V A ω α}
    (h : Rests c g l t) :
    (advance ρ g t).2 = (advance ρ l t).2 ∧
      Rests c (advance ρ g t).1 (advance ρ l t).1 (advance ρ g t).2 := by
  obtain ⟨W, hW, hfix⟩ := h
  obtain ⟨tr, p⟩ := t
  cases p with
  | ret a => exact ⟨rfl, W, hW, hfix⟩
  | halt w => exact ⟨rfl, W, hW, hfix⟩
  | call op k =>
      cases op with
      | ext e =>
          have hk := rests_of_segment (hW (ρ tr.length e))
            (fun x hx => hfix x hx.1) (tr ++ [e])
          exact ⟨congrArg (Thread.mk (tr ++ [e])) hk.1, hk.2⟩
      | read x =>
          have hk := rests_of_segment hW hfix tr
          exact ⟨congrArg (Thread.mk tr) hk.1, hk.2⟩
      | write x v =>
          have hk := rests_of_segment hW hfix tr
          exact ⟨congrArg (Thread.mk tr) hk.1, hk.2⟩

lemma advance_fixed {ρ : ℕ → (e : E) → A e} {g l : (x : X) → V x} {t : Thread V A ω α}
    (h : Rests c g l t) {x : X} {u : V x} (hx : c x = some u) (hg : g x = u) :
    (advance ρ g t).1 x = u := by
  obtain ⟨W, hW, -⟩ := h
  obtain ⟨tr, p⟩ := t
  cases p with
  | ret a => exact hg
  | halt w => exact hg
  | call op k =>
      cases op with
      | ext e => exact segment_fixed (hW (ρ tr.length e)) hx hg
      | read y => exact segment_fixed hW hx hg
      | write y v => exact segment_fixed hW hx hg

lemma runLocal_succ (ρ : ℕ → (e : E) → A e) (env : (x : X) → V x) (t : Thread V A ω α)
    (n : ℕ) :
    runLocal ρ env t (n + 1) =
      advance ρ (runLocal ρ env t n).1 (runLocal ρ env t n).2 := by
  rw [runLocal, Function.iterate_succ_apply']
  rfl

/-- The invariant of a shared run: every thread stands where it would stand alone, and
rests there. -/
def Faithful (c : (x : X) → Option (V x)) (ρ : ℕ → ℕ → (e : E) → A e) (l : (x : X) → V x)
    (ps : List (VarProg V A ω α)) (sched : List ℕ) (w : Worker V A ω α) : Prop :=
  w.threads.length = ps.length ∧ ∀ i p, ps[i]? = some p →
    w.threads[i]? = some (runLocal (ρ i) l (.start p) (sched.count i)).2 ∧
    Rests c w.env (runLocal (ρ i) l (.start p) (sched.count i)).1
      (runLocal (ρ i) l (.start p) (sched.count i)).2

lemma Faithful.resume {ρ : ℕ → ℕ → (e : E) → A e} {l : (x : X) → V x}
    {ps : List (VarProg V A ω α)} {sched : List ℕ} {w : Worker V A ω α}
    (h : Faithful c ρ l ps sched w) (i : ℕ) :
    Faithful c ρ l ps (sched ++ [i]) (w.resume ρ i) := by
  obtain ⟨hlen, hall⟩ := h
  cases hi : ps[i]? with
  | none =>
      have hwi : w.threads[i]? = none := by
        rw [List.getElem?_eq_none_iff, hlen]
        exact List.getElem?_eq_none_iff.mp hi
      rw [Worker.resume, hwi]
      refine ⟨hlen, fun j p hj => ?_⟩
      have hji : j ≠ i := by
        rintro rfl
        rw [hi] at hj
        exact absurd hj (by simp)
      rw [List.count_append, List.count_singleton, if_neg (by simpa using hji.symm), Nat.add_zero]
      exact hall j p hj
  | some q =>
      obtain ⟨hti, hri⟩ := hall i q hi
      rw [Worker.resume, hti]
      refine ⟨by rw [List.length_set, hlen], fun j p hj => ?_⟩
      by_cases hji : j = i
      · subst hji
        obtain rfl : q = p := by rw [hi] at hj; simpa using hj
        obtain ⟨hadv, hrest⟩ := Rests.advance (ρ := ρ j) hri
        rw [List.count_append, List.count_singleton_self, runLocal_succ]
        refine ⟨?_, hadv ▸ hrest⟩
        rw [List.getElem?_set_self (by
          rw [hlen]
          exact (List.getElem?_eq_some_iff.mp hi).1), hadv]
      · obtain ⟨htj, hrj⟩ := hall j p hj
        rw [List.count_append, List.count_singleton, if_neg (by simpa using Ne.symm hji),
          Nat.add_zero]
        refine ⟨?_, hrj.of_fixed fun x u hx hg => advance_fixed hri hx hg⟩
        rw [List.getElem?_set_ne (Ne.symm hji), htj]

/-- **Sharing is harmless under the discipline**: after any order of resumptions and for all
answers, every thread has made the same calls and has the same left to do as when it runs
alone with variables of its own. -/
theorem runShared_eq_runLocal (ρ : ℕ → ℕ → (e : E) → A e) (g l : (x : X) → V x)
    {ps : List (VarProg V A ω α)} (hps : ∀ p ∈ ps, Confined c ∅ p) (sched : List ℕ) (i : ℕ) :
    (runShared ρ ⟨g, ps.map .start⟩ sched).threads[i]? =
      ps[i]?.map fun p => (runLocal (ρ i) l (.start p) (sched.count i)).2 := by
  have key : Faithful c ρ l ps sched (runShared ρ ⟨g, ps.map .start⟩ sched) := by
    induction sched using List.reverseRecOn with
    | nil =>
        refine ⟨by simp [runShared], fun j p hj => ?_⟩
        refine ⟨by simp [runShared, runLocal, hj], ∅, ?_, by simp⟩
        exact hps p (List.mem_of_getElem? hj)
    | append_singleton sched j ih =>
        rw [runShared, List.foldl_append]
        exact ih.resume j
  cases hi : ps[i]? with
  | none =>
      rw [Option.map_none, List.getElem?_eq_none_iff, key.1]
      exact List.getElem?_eq_none_iff.mp hi
  | some p => exact (key.2 i p hi).1

end Env

end Coro
