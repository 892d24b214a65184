import Mathlib.Tactic

/-!
Keyed stores whose entries may carry a deadline.

An entry is alive strictly before its deadline, and for ever without one. Nothing is removed
when a deadline passes: `lookup` filters by the time of the read, so the passage of time is
not a step of the store. Keys, values and times are arbitrary; times need only an order.

* `put_self`, `put_of_ne`: reading back a write, and the frame rule.
* `lookup_eq_none_of_deadline`, `lookup_eq_none_iff`: once a deadline has passed the entry is
  gone, and there is no other way for an entry not to be found.
-/

/-- A value with an optional deadline. -/
structure Entry (ν τ : Type) where
  value : ν
  deadline : Option τ
  deriving DecidableEq

/-- The entry is still alive at the given time. -/
def Entry.Alive {ν τ : Type} [LT τ] (now : τ) (e : Entry ν τ) : Prop :=
  ∀ t ∈ e.deadline, now < t

instance {ν τ : Type} [LT τ] [DecidableLT τ] (now : τ) (e : Entry ν τ) :
    Decidable (e.Alive now) :=
  match h : e.deadline with
  | none => isTrue fun t ht => by rw [h] at ht; exact absurd ht (by simp)
  | some t => decidable_of_iff (now < t) (by simp [Entry.Alive, h])

/-- A store: at each key at most one entry, alive or not. -/
def TimedStore (K ν τ : Type) := K → Option (Entry ν τ)

namespace TimedStore

variable {K ν τ : Type}

/-- The store without entries. -/
def empty : TimedStore K ν τ := fun _ => none

section

variable [DecidableEq K]

/-- Write an entry, alive or not, over whatever the key held. -/
def put (s : TimedStore K ν τ) (k : K) (e : Entry ν τ) : TimedStore K ν τ :=
  Function.update s k (some e)

@[simp] lemma put_self (s : TimedStore K ν τ) (k : K) (e : Entry ν τ) : s.put k e k = some e :=
  Function.update_self ..

lemma put_of_ne (s : TimedStore K ν τ) {k k' : K} (h : k' ≠ k) (e : Entry ν τ) :
    s.put k e k' = s k' :=
  Function.update_of_ne h ..

end

variable [LinearOrder τ]

/-- What a read at time `now` finds under a key. -/
def lookup (s : TimedStore K ν τ) (now : τ) (k : K) : Option (Entry ν τ) :=
  (s k).filter fun e => e.Alive now

variable {s : TimedStore K ν τ} {now later : τ} {k k' : K} {e : Entry ν τ}

lemma lookup_eq_some_iff : s.lookup now k = some e ↔ s k = some e ∧ e.Alive now := by
  simp [lookup, Option.filter_eq_some_iff]

/-- Once its deadline has passed an entry is gone. -/
lemma lookup_eq_none_of_deadline {t : τ} (hk : s k = some e) (ht : e.deadline = some t)
    (hle : t ≤ now) : s.lookup now k = none := by
  cases h : s.lookup now k with
  | none => rfl
  | some e' =>
      obtain ⟨hk', halive⟩ := lookup_eq_some_iff.mp h
      rw [hk, Option.some.injEq] at hk'
      subst hk'
      exact absurd (halive t ht) (not_lt.mpr hle)

/-- A key without an entry alive holds nothing, or an entry whose deadline has passed. -/
lemma lookup_eq_none_iff :
    s.lookup now k = none ↔ s k = none ∨ ∃ e t, s k = some e ∧ e.deadline = some t ∧ t ≤ now := by
  constructor
  · intro h
    cases hk : s k with
    | none => exact Or.inl rfl
    | some e =>
        right
        by_contra hcon
        have halive : e.Alive now := by
          intro t ht
          by_contra hlt
          exact hcon ⟨e, t, rfl, ht, not_lt.mp hlt⟩
        rw [lookup_eq_some_iff.mpr ⟨hk, halive⟩] at h
        exact absurd h (by simp)
  · rintro (hk | ⟨e, t, hk, ht, hle⟩)
    · simp [lookup, hk]
    · exact lookup_eq_none_of_deadline hk ht hle

end TimedStore
