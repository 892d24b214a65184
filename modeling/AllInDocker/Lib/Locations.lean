import Mathlib.Tactic

/-!
How a web server finds the location of a request among nested ones, in the way of nginx.

Of the locations for the beginning of a text the longest one is remembered, and the locations
nested in it are searched. If one of these is given by a test, it is final; if not, the tests of
the outer level are tried in their order, and the first that succeeds is final. What is left
otherwise is the location remembered.

`locate` returns the directives of the levels from the outermost to the location found.
`choose_of_ok`, `choose_of_test` and `choose_of_none` are its three cases on one level, and
`inherited` is the rule for settings that hold on inner levels until they are set again there.
-/

namespace Locations

/-- What a location is for: the texts with a beginning, or those that pass a test. -/
inductive Pattern where
  | beginning (w : List Char)
  | test (f : List Char → Bool)

/-- A location with its directives and the locations nested in it. -/
inductive Location (δ : Type) where
  | mk (pattern : Pattern) (directives : δ) (nested : List (Location δ))

/-- What a search has found: nothing, a location that is only remembered, or one that is final. -/
inductive Found (δ : Type) where
  | declined
  | remembered (levels : List δ)
  | final (levels : List δ)

/-- The levels of what was found. -/
def Found.levels {δ : Type} : Found δ → List δ
  | declined => []
  | remembered levels => levels
  | final levels => levels

/-- A location together with what is found in it. -/
structure Entry (δ : Type) where
  pattern : Pattern
  directives : δ
  inner : Found δ

variable {δ : Type} (uri : List Char)

/-- The longer of two beginnings of the text; an entry for a test does not count. -/
def Entry.orLonger (e : Entry δ) (best : Option (Entry δ × ℕ)) : Option (Entry δ × ℕ) :=
  match e.pattern with
  | .beginning w =>
      if w.isPrefixOf uri && best.all fun b => decide (b.2 < w.length) then some (e, w.length)
      else best
  | .test _ => best

/-- The entry for the longest beginning of the text. -/
def longest (es : List (Entry δ)) : Option (Entry δ) :=
  (es.foldl (fun best e => e.orLonger uri best) none).map Prod.fst

/-- The entry is for a test that the text passes. -/
def Entry.passes (e : Entry δ) : Bool :=
  match e.pattern with
  | .beginning _ => false
  | .test f => f uri

/-- The first test that succeeds, or what is remembered. -/
def orTests (es : List (Entry δ)) (found : Found δ) : Found δ :=
  match es.find? (·.passes uri) with
  | some e => .final (e.directives :: e.inner.levels)
  | none => found

/-- The search on one level. -/
def choose (es : List (Entry δ)) : Found δ :=
  match longest uri es with
  | none => orTests uri es .declined
  | some e =>
      match e.inner with
      | .final levels => .final (e.directives :: levels)
      | inner => orTests uri es (.remembered (e.directives :: inner.levels))

mutual

/-- What is found in a location. -/
def Location.inner : Location δ → Found δ
  | .mk _ _ nested => choose uri (entries nested)

/-- The locations of a level, with what is found in them. -/
def entries : List (Location δ) → List (Entry δ)
  | [] => []
  | .mk pattern directives nested :: ls =>
      ⟨pattern, directives, (Location.mk pattern directives nested).inner⟩ :: entries ls

end

/-- The search in a list of locations. -/
def locate (ls : List (Location δ)) : Found δ := choose uri (entries uri ls)

variable {uri} {es : List (Entry δ)} {e : Entry δ} {d : δ} {found : Found δ}

@[simp] lemma orLonger_beginning (w : List Char) (best : Option (Entry δ × ℕ)) :
    (⟨.beginning w, d, found⟩ : Entry δ).orLonger uri best =
      if w.isPrefixOf uri && best.all fun b => decide (b.2 < w.length) then
        some (⟨.beginning w, d, found⟩, w.length)
      else best := rfl

@[simp] lemma orLonger_test (f : List Char → Bool) (best : Option (Entry δ × ℕ)) :
    (⟨.test f, d, found⟩ : Entry δ).orLonger uri best = best := rfl

@[simp] lemma passes_beginning (w : List Char) :
    (⟨.beginning w, d, found⟩ : Entry δ).passes uri = false := rfl

@[simp] lemma passes_test (f : List Char → Bool) :
    (⟨.test f, d, found⟩ : Entry δ).passes uri = f uri := rfl

/-- A test inside the longest beginning is final. -/
lemma choose_of_ok {levels : List δ} (he : longest uri es = some e)
    (hinner : e.inner = .final levels) : choose uri es = .final (e.directives :: levels) := by
  simp only [choose, he, hinner]

/-- Else the first test that succeeds is. -/
lemma choose_of_test {e' : Entry δ} (he : longest uri es = some e)
    (hinner : e.inner = .declined) (htest : es.find? (·.passes uri) = some e') :
    choose uri es = .final (e'.directives :: e'.inner.levels) := by
  simp only [choose, he, hinner, orTests, htest]

/-- And else the beginning itself. -/
lemma choose_of_none (he : longest uri es = some e) (hinner : e.inner = .declined)
    (htest : es.find? (·.passes uri) = none) : choose uri es = .remembered [e.directives] := by
  simp only [choose, he, hinner, orTests, htest, Found.levels]

/-- On a level of tests the first one that succeeds is found. -/
lemma choose_tests (htests : longest uri es = none) :
    choose uri es = (es.find? (·.passes uri)).elim .declined
      fun e => .final (e.directives :: e.inner.levels) := by
  simp only [choose, htests, orTests]
  cases es.find? (·.passes uri) <;> rfl

/-- The setting of the innermost level that has one. -/
def inherited {α : Type} (f : δ → Option α) (levels : List δ) : Option α :=
  levels.reverse.findSome? f

end Locations
