import Mathlib.Tactic

/-!
Coroutines: programs that suspend at calls to the outside and are resumed with an answer.

* `Coro Op Ans ω α` is the tree of such a program: it returns an `α`, stops early with an
  `ω`, or issues a call `op` and continues with the answer of type `Ans op`. `Coro.bind` is
  sequencing, and `halt` cuts off whatever follows it (`halt_bind`).
* `Coro.exec` runs a coroutine against a handler that answers the calls from a state, and
  `exec_bind` splits the run of a sequence; `Coro.interp` implements every call by a
  coroutine over other calls.
-/

/-- A program that suspends at calls: `Op` are the calls, `Ans op` the answers to `op`, `ω`
the ways to stop early and `α` the results. -/
inductive Coro (Op : Type) (Ans : Op → Type) (ω α : Type) where
  | ret (a : α)
  | halt (w : ω)
  | call (op : Op) (k : Ans op → Coro Op Ans ω α)

namespace Coro

variable {Op : Type} {Ans : Op → Type} {ω α β γ σ : Type}

/-- Run the second coroutine on the result of the first. -/
def bind : Coro Op Ans ω α → (α → Coro Op Ans ω β) → Coro Op Ans ω β
  | ret a, f => f a
  | halt w, _ => halt w
  | call op k, f => call op fun a => (k a).bind f

/-- The coroutine that issues one call and returns its answer. -/
def perform (op : Op) : Coro Op Ans ω (Ans op) := call op ret

instance : Monad (Coro Op Ans ω) where
  pure := ret
  bind := bind

@[simp] lemma ret_bind (a : α) (f : α → Coro Op Ans ω β) : (ret a).bind f = f a := rfl

/-- Nothing runs after an early stop. -/
@[simp] lemma halt_bind (w : ω) (f : α → Coro Op Ans ω β) : (halt w).bind f = halt w := rfl

@[simp] lemma call_bind (op : Op) (k : Ans op → Coro Op Ans ω α) (f : α → Coro Op Ans ω β) :
    (call op k).bind f = call op fun a => (k a).bind f := rfl

@[simp] lemma monad_bind_eq (p : Coro Op Ans ω α) (f : α → Coro Op Ans ω β) :
    p >>= f = p.bind f := rfl

@[simp] lemma monad_pure_eq (a : α) : (pure a : Coro Op Ans ω α) = ret a := rfl

@[simp] lemma perform_bind (op : Op) (f : Ans op → Coro Op Ans ω β) :
    (perform op).bind f = call op f := rfl

lemma bind_ret (p : Coro Op Ans ω α) : p.bind ret = p := by
  induction p with
  | ret a => rfl
  | halt w => rfl
  | call op k ih =>
      rw [call_bind]
      congr 1
      funext a
      exact ih a

lemma bind_assoc (p : Coro Op Ans ω α) (f : α → Coro Op Ans ω β) (g : β → Coro Op Ans ω γ) :
    (p.bind f).bind g = p.bind fun a => (f a).bind g := by
  induction p with
  | ret a => rfl
  | halt w => rfl
  | call op k ih =>
      simp only [call_bind]
      congr 1
      funext a
      exact ih a

/-! ### Running against a handler -/

/-- Run a coroutine against a handler that answers each call from a state. -/
def exec (h : (op : Op) → σ → Ans op × σ) : Coro Op Ans ω α → σ → Except ω α × σ
  | ret a, s => (.ok a, s)
  | halt w, s => (.error w, s)
  | call op k, s => exec h (k (h op s).1) (h op s).2

section exec

variable (h : (op : Op) → σ → Ans op × σ)

@[simp] lemma exec_ret (a : α) (s : σ) :
    exec h (ret a : Coro Op Ans ω α) s = (.ok a, s) := rfl

@[simp] lemma exec_halt (w : ω) (s : σ) :
    exec h (halt w : Coro Op Ans ω α) s = (.error w, s) := rfl

@[simp] lemma exec_call (op : Op) (k : Ans op → Coro Op Ans ω α) (s : σ) :
    exec h (call op k) s = exec h (k (h op s).1) (h op s).2 := rfl

/-- A sequence runs its first part and then, if that returned, its second. -/
lemma exec_bind (p : Coro Op Ans ω α) (f : α → Coro Op Ans ω β) (s : σ) :
    exec h (p.bind f) s = match exec h p s with
      | (.ok a, s') => exec h (f a) s'
      | (.error w, s') => (.error w, s') := by
  induction p generalizing s with
  | ret a => rfl
  | halt w => rfl
  | call op k ih => exact ih _ _

end exec

/-! ### Implementing calls by coroutines -/

variable {Op' : Type} {Ans' : Op' → Type}

/-- Replace every call by a coroutine over other calls that computes its answer. -/
def interp (t : (op : Op) → Coro Op' Ans' ω (Ans op)) : Coro Op Ans ω α → Coro Op' Ans' ω α
  | ret a => ret a
  | halt w => halt w
  | call op k => (t op).bind fun a => interp t (k a)

end Coro
