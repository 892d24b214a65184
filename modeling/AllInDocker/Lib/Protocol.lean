import AllInDocker.Lib.Coroutine

/-!
Coroutines that keep to a protocol.

A protocol has states; in each it allows some calls, and an answer leads to the next state.
A coroutine obeys it if every call it can make is allowed where it makes it, whatever the
answers were, and a postcondition holds of the state and the value it returns with.

`Obeys.bind` is the rule for sequences, and `Obeys.interp` the one for calls that are
implemented by coroutines over the calls of another protocol with the same states.
-/

namespace Coro

variable {K Op : Type} {Ans : Op → Type} {ω α β : Type}

/-- A protocol for the calls of a coroutine. -/
structure Protocol (K Op : Type) (Ans : Op → Type) where
  allow : K → Op → Prop
  next : K → (op : Op) → Ans op → K

/-- The coroutine obeys the protocol from the state `k` on, and returns with `Q`. -/
def Obeys (P : Protocol K Op Ans) (Q : K → α → Prop) : K → Coro Op Ans ω α → Prop
  | k, ret a => Q k a
  | _, halt _ => True
  | k, call op f => P.allow k op ∧ ∀ a, Obeys P Q (P.next k op a) (f a)

variable {P : Protocol K Op Ans} {Q : K → α → Prop} {Q' : K → β → Prop} {k : K}

/-- One call, and then the rest. -/
lemma obeys_perform_bind {op : Op} {f : Ans op → Coro Op Ans ω α} (hop : P.allow k op)
    (hf : ∀ a, Obeys P Q (P.next k op a) (f a)) : Obeys P Q k ((perform op).bind f) :=
  ⟨hop, hf⟩

/-- A sequence: the second part starts where the first returns. -/
lemma Obeys.bind {p : Coro Op Ans ω α} {f : α → Coro Op Ans ω β} (hp : Obeys P Q k p)
    (hf : ∀ k a, Q k a → Obeys P Q' k (f a)) : Obeys P Q' k (p.bind f) := by
  induction p generalizing k with
  | ret a => exact hf k a hp
  | halt w => trivial
  | call op g ih => exact ⟨hp.1, fun a => ih a (hp.2 a)⟩

variable {Op' : Type} {Ans' : Op' → Type} {P' : Protocol K Op' Ans'}

/-- Calls that are implemented as the protocol has them: what obeys the one protocol obeys the
other. -/
lemma Obeys.interp {t : (op : Op) → Coro Op' Ans' ω (Ans op)}
    (ht : ∀ k op, P.allow k op → Obeys P' (fun k' a => k' = P.next k op a) k (t op))
    {p : Coro Op Ans ω α} (hp : Obeys P Q k p) : Obeys P' Q k (Coro.interp t p) := by
  induction p generalizing k with
  | ret a => exact hp
  | halt w => trivial
  | call op g ih =>
      refine (ht k op hp.1).bind fun k' a hk' => ?_
      subst hk'
      exact ih a (hp.2 a)

end Coro
