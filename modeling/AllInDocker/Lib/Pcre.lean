import Mathlib.Tactic

/-!
Searching a text for a regular expression, as Perl's do it, without repetition: characters,
sequences, alternatives, the end of the text, where a last newline does not count, and negative
lookahead. Characters are compared after a folding, which is the identity or the lower case.

`Re.rests` are the texts that may be left after a match at the beginning. An expression of
characters, sequences and alternatives stands for a finite list of words (`Re.words`), and
`mem_rests_iff` says that it matches just these; `search_ending_iff` is the search for such an
expression at the end of the text.
-/

namespace Pcre

/-- A regular expression. -/
inductive Re where
  | empty
  | chr (c : Char)
  | seq (r q : Re)
  | alt (r q : Re)
  | eol
  | notAhead (r : Re)

namespace Re

/-- The characters of a text. -/
def str (w : List Char) : Re := w.foldr (fun c r => seq (chr c) r) empty

/-- `r?` -/
def opt (r : Re) : Re := alt r empty

/-- The alternatives of a list. -/
def alts (r : Re) (rs : List Re) : Re := rs.foldl alt r

/-- What may be left after a match at the beginning of the text. -/
def rests (fold : Char → Char) : Re → List Char → List (List Char)
  | empty, s => [s]
  | chr _, [] => []
  | chr c, d :: s => if fold c = fold d then [s] else []
  | seq r q, s => (r.rests fold s).flatMap (q.rests fold)
  | alt r q, s => r.rests fold s ++ q.rests fold s
  | eol, s => if s = [] ∨ s = ['\n'] then [s] else []
  | notAhead r, s => if r.rests fold s = [] then [s] else []

/-- The expression matches somewhere in the text. -/
def search (fold : Char → Char) (r : Re) (s : List Char) : Bool :=
  s.tails.any fun t => !(r.rests fold t).isEmpty

/-- The words of an expression of characters, sequences and alternatives. -/
def words : Re → List (List Char)
  | empty => [[]]
  | chr c => [[c]]
  | seq r q => r.words.flatMap fun w => q.words.map (w ++ ·)
  | alt r q => r.words ++ q.words
  | eol => []
  | notAhead _ => []

/-- An expression of characters, sequences and alternatives. -/
def finite : Re → Bool
  | empty => true
  | chr _ => true
  | seq r q => r.finite && q.finite
  | alt r q => r.finite && q.finite
  | eol => false
  | notAhead _ => false

variable {fold : Char → Char} {r q : Re} {s t : List Char}

lemma search_iff : r.search fold s = true ↔ ∃ t, t <:+ s ∧ ∃ u, u ∈ r.rests fold t := by
  simp [search, List.mem_tails, List.eq_nil_iff_forall_not_mem]

lemma mem_rests_seq : t ∈ (seq r q).rests fold s ↔ ∃ u ∈ r.rests fold s, t ∈ q.rests fold u := by
  rw [rests, List.mem_flatMap]

/-- A finite expression matches its words. -/
lemma mem_rests_iff (hr : r.finite = true) :
    t ∈ r.rests fold s ↔ ∃ w ∈ r.words, ∃ u, s = u ++ t ∧ u.map fold = w.map fold := by
  induction r generalizing s t with
  | empty => simp [rests, words, eq_comm]
  | chr c =>
      cases s with
      | nil => simp [rests, words]
      | cons d s =>
          simp only [rests, words, List.mem_singleton, exists_eq_left, List.map_singleton,
            List.map_eq_singleton_iff]
          constructor
          · intro h
            obtain ⟨hc, rfl⟩ : fold c = fold d ∧ t = s := by simpa using h
            exact ⟨[d], rfl, d, rfl, hc.symm⟩
          · rintro ⟨u, hs, d', rfl, hc⟩
            obtain ⟨rfl, rfl⟩ := List.cons.inj hs
            simp [hc]
  | seq r q ihr ihq =>
      simp only [finite, Bool.and_eq_true] at hr
      simp only [rests, words, List.mem_flatMap, List.mem_map, ihr hr.1, ihq hr.2]
      constructor
      · rintro ⟨s', ⟨w, hw, u, rfl, hu⟩, w', hw', u', rfl, hu'⟩
        exact ⟨w ++ w', ⟨w, hw, w', hw', rfl⟩, u ++ u', by simp, by simp [hu, hu']⟩
      · rintro ⟨-, ⟨w, hw, w', hw', rfl⟩, u, rfl, hu⟩
        rw [List.map_append] at hu
        obtain ⟨u₁, u₂, rfl, hu₁, hu₂⟩ := List.map_eq_append_iff.mp hu
        exact ⟨u₂ ++ t, ⟨w, hw, u₁, by simp, hu₁⟩, w', hw', u₂, rfl, hu₂⟩
  | alt r q ihr ihq =>
      simp only [finite, Bool.and_eq_true] at hr
      simp only [rests, words, List.mem_append, ihr hr.1, ihq hr.2, or_and_right, exists_or]
  | eol => cases hr
  | notAhead r ih => cases hr

/-- The text ends in the word, but for a newline. -/
def EndsIn (fold : Char → Char) (w s : List Char) : Prop :=
  ∃ a u, u.map fold = w.map fold ∧ (s = a ++ u ∨ s = a ++ u ++ ['\n'])

/-- A finite expression at the end of the text. -/
lemma search_ending_iff (hr : r.finite = true) :
    (seq r eol).search fold s = true ↔ ∃ w ∈ r.words, EndsIn fold w s := by
  have heol : ∀ t t' : List Char, t' ∈ eol.rests fold t ↔ (t = [] ∨ t = ['\n']) ∧ t' = t := by
    intro t t'
    rw [rests]
    split_ifs with h <;> simp [h]
  rw [search_iff]
  simp only [mem_rests_seq, mem_rests_iff hr, heol]
  constructor
  · rintro ⟨-, ⟨a, rfl⟩, t', t, ⟨w, hw, u, rfl, hu⟩, rfl | rfl, -⟩
    · exact ⟨w, hw, a, u, hu, .inl (by simp)⟩
    · exact ⟨w, hw, a, u, hu, .inr (by simp)⟩
  · rintro ⟨w, hw, a, u, hu, rfl | rfl⟩
    · exact ⟨u, ⟨a, rfl⟩, [], [], ⟨w, hw, u, by simp, hu⟩, .inl rfl, rfl⟩
    · exact ⟨u ++ ['\n'], ⟨a, by simp⟩, ['\n'], ['\n'], ⟨w, hw, u, rfl, hu⟩, .inr rfl, rfl⟩

/-- The text without a last newline. -/
def chomp (s : List Char) : List Char := if s.getLast? = some '\n' then s.dropLast else s

/-- The text ends in the word without a last newline, unless the word has one. -/
lemma EndsIn.suffix {w : List Char} (h : EndsIn fold w s) (hw : w ≠ [])
    (hnewline : fold '\n' ∉ w.map fold) : w.map fold <:+ (chomp s).map fold := by
  obtain ⟨a, u, hu, rfl | rfl⟩ := h
  · have hlast : (a ++ u).getLast? ≠ some '\n' := by
      intro hlast
      have hne : u ≠ [] := by
        rintro rfl
        exact hw (List.map_eq_nil_iff.mp hu.symm)
      rw [List.getLast?_append_of_ne_nil a hne] at hlast
      exact hnewline (hu ▸ List.mem_map_of_mem (List.mem_of_getLast? hlast))
    rw [chomp, if_neg hlast, List.map_append, hu]
    exact List.suffix_append ..
  · rw [chomp, if_pos (by simp), List.dropLast_concat, List.map_append, hu]
    exact List.suffix_append ..

/-- Of two words that a text ends in, one ends in the other. -/
lemma EndsIn.comparable {w v : List Char} (hw : EndsIn fold w s) (hv : EndsIn fold v s)
    (hne : w ≠ [] ∧ v ≠ []) (hnewline : fold '\n' ∉ w.map fold ∧ fold '\n' ∉ v.map fold) :
    w.map fold <:+ v.map fold ∨ v.map fold <:+ w.map fold :=
  List.suffix_or_suffix_of_suffix (hw.suffix hne.1 hnewline.1) (hv.suffix hne.2 hnewline.2)

lemma EndsIn.caseless {w : List Char} (h : EndsIn id w s) (f : Char → Char) : EndsIn f w s := by
  obtain ⟨a, u, hu, hs⟩ := h
  rw [List.map_id, List.map_id] at hu
  exact ⟨a, u, by rw [hu], hs⟩

lemma finite_str (w : List Char) : (str w).finite = true := by
  induction w with
  | nil => rfl
  | cons c w ih => simpa [str, finite] using ih

lemma words_str (w : List Char) : (str w).words = [w] := by
  induction w with
  | nil => rfl
  | cons c w ih =>
      change ([[c]].flatMap fun v => (str w).words.map (v ++ ·)) = [c :: w]
      rw [ih]
      rfl

/-- A text that is not followed by another one. -/
lemma search_notAhead_iff {w v : List Char} :
    (seq (str w) (notAhead (str v))).search id s = true ↔
      ∃ a b, s = a ++ (w ++ b) ∧ ¬ v <+: b := by
  have hstr : ∀ {w s t : List Char}, t ∈ (str w).rests id s ↔ s = w ++ t := by
    intro w s t
    rw [mem_rests_iff (finite_str w), words_str]
    simp [eq_comm]
  have hahead : ∀ t t' : List Char, t' ∈ (notAhead (str v)).rests id t ↔ ¬ v <+: t ∧ t' = t := by
    intro t t'
    have hempty : (str v).rests id t = [] ↔ ¬ v <+: t := by
      rw [List.eq_nil_iff_forall_not_mem]
      simp only [hstr, ← not_exists]
      exact not_congr ⟨fun ⟨b, hb⟩ => ⟨b, hb.symm⟩, fun ⟨b, hb⟩ => ⟨b, hb.symm⟩⟩
    rw [rests]
    split_ifs with h
    · simp [hempty.mp h]
    · simp [not_not.mp (mt hempty.mpr h)]
  rw [search_iff]
  simp only [mem_rests_seq, hstr, hahead]
  constructor
  · rintro ⟨-, ⟨a, rfl⟩, t', b, rfl, hb, -⟩
    exact ⟨a, b, rfl, hb⟩
  · rintro ⟨a, b, rfl, hb⟩
    exact ⟨w ++ b, ⟨a, rfl⟩, b, b, rfl, hb, rfl⟩

end Re

end Pcre
