import Mathlib.Tactic

/-!
What holds along the runs of a step function.

`Along step P s is` says that `P` holds of every input of the run and the state in which it
is taken. `along_iff_of_step` is the rule for exact conditions: if, in states with the
invariant, a step keeps the invariant and does what it should exactly when it is safe, then
a whole run does so exactly when all of its steps are safe. `along_congr` replaces a condition
by one that is the same in the states the run can reach, and `foldl_of_along` is the rule for
an invariant that only some steps keep.
-/

namespace Runs

variable {σ ι : Type} {step : σ → ι → σ} {P Q : σ → ι → Prop} {s : σ}

/-- `P` holds of every input and the state in which it is taken. -/
def Along (step : σ → ι → σ) (P : σ → ι → Prop) (s : σ) (is : List ι) : Prop :=
  ∀ pre i post, is = pre ++ i :: post → P (pre.foldl step s) i

lemma along_nil : Along step P s [] := by
  intro pre i post h
  simp at h

lemma along_cons {i : ι} {is : List ι} :
    Along step P s (i :: is) ↔ P s i ∧ Along step P (step s i) is := by
  constructor
  · intro h
    exact ⟨h [] i is rfl, fun pre j post hj => h (i :: pre) j post (by rw [hj]; rfl)⟩
  · rintro ⟨hi, his⟩ pre j post h
    cases pre with
    | nil =>
        obtain ⟨rfl, rfl⟩ := List.cons.inj h
        exact hi
    | cons k pre =>
        obtain ⟨rfl, htail⟩ := List.cons.inj h
        exact his pre j post htail

/-- Of a run in two parts. -/
lemma along_append {is js : List ι} :
    Along step P s (is ++ js) ↔ Along step P s is ∧ Along step P (is.foldl step s) js := by
  induction is generalizing s with
  | nil => simp [along_nil]
  | cons i is ih => rw [List.cons_append, along_cons, ih, along_cons, and_assoc, List.foldl_cons]

/-- Two conditions at once. -/
lemma along_and {is : List ι} (hP : Along step P s is) (hQ : Along step Q s is) :
    Along step (fun s i => P s i ∧ Q s i) s is :=
  fun pre i post h => ⟨hP pre i post h, hQ pre i post h⟩

/-- A run keeps the invariant and does what it should exactly when its steps are safe. -/
lemma along_iff_of_step {Inv : σ → Prop} {Post Safe : σ → ι → Prop}
    (hstep : ∀ s i, Inv s → (Inv (step s i) ∧ Post s i ↔ Safe s i)) {is : List ι}
    (hs : Inv s) :
    Along step (fun s i => Inv (step s i) ∧ Post s i) s is ↔ Along step Safe s is := by
  induction is generalizing s with
  | nil => exact iff_of_true along_nil along_nil
  | cons i is ih =>
      rw [along_cons, along_cons]
      constructor
      · rintro ⟨hi, his⟩
        exact ⟨(hstep s i hs).mp hi, (ih hi.1).mp his⟩
      · rintro ⟨hi, his⟩
        have hi' := (hstep s i hs).mpr hi
        exact ⟨hi', (ih hi'.1).mpr his⟩

/-- An invariant that the steps of a run keep holds where the run ends. -/
lemma foldl_of_along (Inv : σ → Prop) {Ok : σ → ι → Prop}
    (hstep : ∀ s i, Inv s → Ok s i → Inv (step s i)) {is : List ι} (hs : Inv s)
    (hok : Along step Ok s is) : Inv (is.foldl step s) := by
  induction is generalizing s with
  | nil => exact hs
  | cons i is ih =>
      obtain ⟨hi, his⟩ := along_cons.mp hok
      exact ih (hstep s i hs hi) his

/-- Two conditions that agree on states with the invariant agree along runs of steps that
keep it. -/
lemma along_congr (Inv : σ → Prop) {Ok : σ → ι → Prop}
    (hstep : ∀ s i, Inv s → Ok s i → Inv (step s i))
    (hiff : ∀ s i, Inv s → Ok s i → (P s i ↔ Q s i)) {is : List ι} (hs : Inv s)
    (hok : Along step Ok s is) : Along step P s is ↔ Along step Q s is := by
  induction is generalizing s with
  | nil => exact iff_of_true along_nil along_nil
  | cons i is ih =>
      obtain ⟨hi, his⟩ := along_cons.mp hok
      rw [along_cons, along_cons, hiff s i hs hi, ih (hstep s i hs hi) his]

end Runs
