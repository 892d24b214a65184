import Mathlib.Tactic

/-!
Texts of quoted words, as PHP writes and reads them.

`addslashes` puts a backslash before quotes, backslashes and the null character, and
`stripslashes` takes it away again (`stripslashes_addslashes`). `strGetcsv` splits a text at
blanks, with `"` as the enclosure and the backslash as the escape character, which stays in the
field.

A line is a list of words, each bare or in quotes (`Token`). `strGetcsv_line`: reading a line
gives back the words, as far as they are on one line: carriage returns are dropped before and
newlines have become blanks (`oneLine`).

`explode` splits a text at a separator, and the parts make up the text again
(`intercalate_explode`).
-/

namespace PhpText

/-- A text of bytes. -/
abbrev Text := List Char

/-! ### Slashes -/

/-- A character with a backslash, if it needs one. -/
def addslash (c : Char) : Text :=
  if c = '\x00' then ['\\', '0']
  else if c = '\'' ∨ c = '"' ∨ c = '\\' then ['\\', c]
  else [c]

/-- `addslashes` -/
def addslashes (s : Text) : Text := s.flatMap addslash

/-- `stripslashes` -/
def stripslashes : Text → Text
  | [] => []
  | ['\\'] => []
  | '\\' :: '0' :: s => '\x00' :: stripslashes s
  | '\\' :: c :: s => c :: stripslashes s
  | c :: s => c :: stripslashes s

/-- Either the character stands for itself, or there is a backslash before what stands for it. -/
lemma addslash_cases (c : Char) :
    (addslash c = ['\\', '0'] ∧ c = '\x00') ∨ (addslash c = ['\\', c] ∧ c ≠ '0') ∨
      (addslash c = [c] ∧ c ≠ '"' ∧ c ≠ '\\') := by
  rw [addslash]
  split_ifs with hnull hquote
  · exact .inl ⟨rfl, hnull⟩
  · refine .inr (.inl ⟨rfl, ?_⟩)
    rcases hquote with rfl | rfl | rfl <;> decide
  · simp only [not_or] at hquote
    exact .inr (.inr ⟨rfl, hquote.2.1, hquote.2.2⟩)

/-- The slashes that were added are taken away. -/
lemma stripslashes_addslashes (s : Text) : stripslashes (addslashes s) = s := by
  induction s with
  | nil => rfl
  | cons c s ih =>
      rw [addslashes, List.flatMap_cons, ← addslashes]
      obtain ⟨h, rfl⟩ | ⟨h, hzero⟩ | ⟨h, -, hslash⟩ := addslash_cases c <;> rw [h]
      · simp [stripslashes, ih]
      · simp [stripslashes, ih]
      · simp [stripslashes, ih, hslash]

/-! ### Fields -/

/-- Where the reader is: before a field, with the white space that is skipped if an enclosure
follows, inside of the enclosure, behind an escape character in it, behind a closing enclosure,
behind the enclosed part, or in a field without one. The text of the field so far is kept. -/
inductive Reader where
  | before (field : Text)
  | enclosed (field : Text)
  | escaped (field : Text)
  | closing (field : Text)
  | behind (field : Text)
  | plain (field : Text)

/-- White space, of which the blank is the delimiter. -/
def isSpace (c : Char) : Bool := c = '\t' || c = '\n' || c = '\x0b' || c = '\x0c' || c = '\r'

/-- A field without an enclosure loses one line end. -/
def withoutLineEnd (field : Text) : Text :=
  if ['\r', '\n'].isSuffixOf field then field.dropLast.dropLast
  else if ['\n'].isSuffixOf field || ['\r'].isSuffixOf field then field.dropLast
  else field

/-- The fields of a text, from where the reader is. -/
def read : Reader → Text → List Text
  | .before field, [] => [withoutLineEnd field]
  | .before field, c :: s =>
      if c = '"' then read (.enclosed []) s
      else if c = ' ' then withoutLineEnd field :: read (.before []) s
      else if isSpace c then read (.before (field ++ [c])) s
      else read (.plain (field ++ [c])) s
  | .enclosed field, [] => [field]
  | .enclosed field, c :: s =>
      if c = '"' then read (.closing field) s
      else if c = '\\' then read (.escaped (field ++ [c])) s
      else read (.enclosed (field ++ [c])) s
  | .escaped field, [] => [field]
  | .escaped field, c :: s => read (.enclosed (field ++ [c])) s
  | .closing field, [] => [field]
  | .closing field, c :: s =>
      if c = '"' then read (.enclosed (field ++ [c])) s
      else if c = ' ' then field :: read (.before []) s
      else read (.behind (field ++ [c])) s
  | .behind field, [] => [field]
  | .behind field, c :: s =>
      if c = ' ' then field :: read (.before []) s else read (.behind (field ++ [c])) s
  | .plain field, [] => [withoutLineEnd field]
  | .plain field, c :: s =>
      if c = ' ' then withoutLineEnd field :: read (.before []) s
      else read (.plain (field ++ [c])) s

/-- `str_getcsv(s, ' ')`; of an empty text the only field is `null`, which is no different from
an empty one here. -/
def strGetcsv (s : Text) : List Text := read (.before []) s

/-- What is between the quotes, with its slashes, is read as it is. -/
lemma read_enclosed (s rest field : Text) :
    read (.enclosed field) (addslashes s ++ '"' :: ' ' :: rest) =
      (field ++ addslashes s) :: read (.before []) rest := by
  induction s generalizing field with
  | nil => simp [addslashes, read]
  | cons c s ih =>
      rw [addslashes, List.flatMap_cons, ← addslashes]
      obtain ⟨h, -⟩ | ⟨h, -⟩ | ⟨h, hquote, hslash⟩ := addslash_cases c <;> rw [h]
      · simp [read, ih]
      · simp [read, ih]
      · simp [read, ih, hquote, hslash]

/-- A word that is read without quotes: it has no character of a meaning to the reader. -/
def Bare (w : Text) : Prop := w ≠ [] ∧ ∀ c ∈ w, c ≠ '"' ∧ c ≠ ' ' ∧ c ≠ '\\' ∧ isSpace c = false

instance (w : Text) : Decidable (Bare w) :=
  decidable_of_iff (w ≠ [] ∧
    (w.all fun c => c ≠ '"' ∧ c ≠ ' ' ∧ c ≠ '\\' ∧ isSpace c = false) = true) (by simp [Bare])

lemma withoutLineEnd_of_bare {w : Text} (hw : Bare w) : withoutLineEnd w = w := by
  have hlast : ∀ c, isSpace c = true → ∀ v : Text, (v ++ [c]).isSuffixOf w = false := by
    intro c hc v
    rw [Bool.eq_false_iff, ne_eq, List.isSuffixOf_iff_suffix]
    rintro ⟨u, rfl⟩
    exact absurd (hw.2 c (by simp)).2.2.2 (by simp [hc])
  have hcrlf := hlast '\n' (by decide) ['\r']
  have hlf := hlast '\n' (by decide) []
  have hcr := hlast '\r' (by decide) []
  simp only [List.cons_append, List.nil_append] at hcrlf hlf hcr
  simp [withoutLineEnd, hcrlf, hlf, hcr]

lemma read_plain {w rest field : Text} (hw : ∀ c ∈ w, c ≠ ' ') :
    read (.plain field) (w ++ ' ' :: rest) =
      withoutLineEnd (field ++ w) :: read (.before []) rest := by
  induction w generalizing field with
  | nil => simp [read]
  | cons c w ih =>
      rw [List.cons_append, read, if_neg (hw c (by simp)), ih fun d hd => hw d (by simp [hd])]
      simp

/-- A bare word is read as it is. -/
lemma read_bare {w rest : Text} (hw : Bare w) :
    read (.before []) (w ++ ' ' :: rest) = w :: read (.before []) rest := by
  obtain ⟨c, w, rfl⟩ := List.exists_cons_of_ne_nil hw.1
  obtain ⟨hquote, hblank, -, hspace⟩ := hw.2 c (by simp)
  rw [List.cons_append, read, if_neg hquote, if_neg hblank, if_neg (by simp [hspace]),
    read_plain fun d hd => (hw.2 d (by simp [hd])).2.1]
  exact congrArg (· :: _) (withoutLineEnd_of_bare hw)

/-! ### Lines -/

/-- A word of a line. -/
inductive Token where
  | bare (w : Text) (h : Bare w)
  | quoted (w : Text)

/-- How a word is written. -/
def Token.written : Token → Text
  | bare w _ => w
  | quoted w => '"' :: (addslashes w ++ ['"'])

/-- The word. -/
def Token.word : Token → Text
  | bare w _ => w
  | quoted w => w

/-- A line, with a blank or the line end after each word. -/
def line : List Token → Text
  | [] => []
  | [t] => t.written ++ ['\n']
  | t :: ts => t.written ++ ' ' :: line ts

/-- `str_replace(array("\r", "\n"), array('', ' '), s)` -/
def oneLine (s : Text) : Text :=
  (s.filter (· ≠ '\r')).map fun c => if c = '\n' then ' ' else c

@[simp] lemma oneLine_append (s t : Text) : oneLine (s ++ t) = oneLine s ++ oneLine t := by
  simp [oneLine]

lemma oneLine_cons (c : Char) (s : Text) : oneLine (c :: s) = oneLine [c] ++ oneLine s :=
  oneLine_append [c] s

/-- A text without line ends stays as it is. -/
lemma oneLine_eq_self {s : Text} (hs : ∀ c ∈ s, c ≠ '\r' ∧ c ≠ '\n') : oneLine s = s := by
  rw [oneLine, List.filter_eq_self.mpr fun c hc => by simpa using (hs c hc).1]
  refine (List.map_congr_left fun c hc => ?_).trans (List.map_id s)
  exact if_neg (hs c hc).2

lemma oneLine_bare {w : Text} (hw : Bare w) : oneLine w = w := by
  refine oneLine_eq_self fun c hc => ⟨?_, ?_⟩ <;>
    · rintro rfl
      exact absurd (hw.2 _ hc).2.2.2 (by decide)

/-- Slashes and line ends do not meet. -/
lemma oneLine_addslashes (s : Text) : oneLine (addslashes s) = addslashes (oneLine s) := by
  have hone : ∀ c, oneLine (addslash c) = addslashes (oneLine [c]) := by
    intro c
    by_cases hcr : c = '\r'
    · subst hcr
      decide
    · by_cases hlf : c = '\n'
      · subst hlf
        decide
      · have hself : oneLine [c] = [c] := oneLine_eq_self (by simp [hcr, hlf])
        rw [hself, addslashes, List.flatMap_singleton]
        refine oneLine_eq_self fun d hd => ?_
        obtain ⟨h, -⟩ | ⟨h, -⟩ | ⟨h, -⟩ := addslash_cases c <;> rw [h] at hd
        · simp only [List.mem_cons, List.not_mem_nil, or_false] at hd
          rcases hd with rfl | rfl <;> decide
        · simp only [List.mem_cons, List.not_mem_nil, or_false] at hd
          rcases hd with rfl | rfl
          · decide
          · exact ⟨hcr, hlf⟩
        · exact List.mem_singleton.mp hd ▸ ⟨hcr, hlf⟩
  induction s with
  | nil => rfl
  | cons c s ih =>
      rw [oneLine_cons, addslashes, List.flatMap_cons, ← addslashes, oneLine_append, ih, hone]
      simp [addslashes]

lemma stripslashes_bare {w : Text} (hw : Bare w) : stripslashes w = w := by
  have hslash : ∀ c ∈ w, c ≠ '\\' := fun c hc => (hw.2 c hc).2.2.1
  clear hw
  induction w with
  | nil => rfl
  | cons c w ih =>
      have hrest := ih fun d hd => hslash d (by simp [hd])
      simp [stripslashes, hslash c, hrest]

/-- A line is read as its words, with all that follows it. -/
lemma strGetcsv_line (ts : List Token) (rest : Text) :
    (strGetcsv (oneLine (line ts) ++ rest)).map stripslashes =
      ts.map (fun t => oneLine t.word) ++ (strGetcsv rest).map stripslashes := by
  have hword : ∀ (t : Token) rest, (strGetcsv (oneLine t.written ++ ' ' :: rest)).map stripslashes =
      oneLine t.word :: (strGetcsv rest).map stripslashes := by
    intro t rest
    cases t with
    | bare w h =>
        rw [Token.written, Token.word, oneLine_bare h, strGetcsv, read_bare h, List.map_cons,
          stripslashes_bare h]
        rfl
    | quoted w =>
        have hwritten : oneLine (Token.quoted w).written ++ ' ' :: rest =
            '"' :: (addslashes (oneLine w) ++ '"' :: ' ' :: rest) := by
          rw [Token.written, oneLine_cons, oneLine_append, oneLine_addslashes]
          simp [oneLine]
        rw [hwritten, strGetcsv, read, if_pos rfl, read_enclosed, List.map_cons,
          List.nil_append, stripslashes_addslashes]
        rfl
  induction ts with
  | nil => rfl
  | cons t ts ih =>
      cases ts with
      | nil =>
          rw [line, oneLine_append, List.append_assoc]
          exact hword t rest
      | cons t' ts =>
          have hline : line (t :: t' :: ts) = t.written ++ ' ' :: line (t' :: ts) := rfl
          rw [hline, oneLine_append, oneLine_cons, List.append_assoc]
          exact (hword t _).trans (congrArg (oneLine t.word :: ·) ih)

/-! ### Texts split at a separator -/

/-- `explode`, while some characters of a separator are still to be passed over. -/
def explodeFrom (sep : Text) : ℕ → Text → List Text
  | _, [] => [[]]
  | n + 1, _ :: s => explodeFrom sep n s
  | 0, c :: s =>
      if sep <+: c :: s then [] :: explodeFrom sep (sep.length - 1) s
      else (explodeFrom sep 0 s).modifyHead (c :: ·)

/-- `explode`, for a separator that is not empty. -/
def explode (sep s : Text) : List Text := explodeFrom sep 0 s

lemma explodeFrom_ne_nil (sep : Text) (n : ℕ) (s : Text) : explodeFrom sep n s ≠ [] := by
  fun_induction explodeFrom sep n s <;> simp_all

lemma explode_ne_nil (sep s : Text) : explode sep s ≠ [] := explodeFrom_ne_nil sep 0 s

/-- The first part of a text that does not begin with the separator is not empty. -/
lemma explode_cons {sep : Text} {c : Char} {s : Text} (h : ¬sep <+: c :: s) :
    ∃ w ws, explode sep (c :: s) = (c :: w) :: ws := by
  obtain ⟨w, ws, hws⟩ := List.exists_cons_of_ne_nil (explode_ne_nil sep s)
  refine ⟨w, ws, ?_⟩
  rw [explode, explodeFrom, if_neg h, ← explode, hws, List.modifyHead_cons]

lemma intercalate_explodeFrom {sep : Text} (hsep : sep ≠ []) (n : ℕ) (s : Text) :
    sep.intercalate (explodeFrom sep n s) = s.drop n := by
  fun_induction explodeFrom sep n s with
  | case1 => simp
  | case2 n c s ih => rw [ih, List.drop_succ_cons]
  | case3 c s hpre ih =>
      obtain ⟨d, sep', rfl⟩ := List.exists_cons_of_ne_nil hsep
      obtain ⟨rest, hrest⟩ := hpre
      rw [List.intercalate_cons_of_ne_nil (explodeFrom_ne_nil _ _ _), ih, List.nil_append,
        List.drop_zero, ← hrest]
      simp only [List.cons_append, List.cons.injEq] at hrest
      simp [← hrest.2]
  | case4 c s hpre ih =>
      obtain ⟨w, ws, hws⟩ := List.exists_cons_of_ne_nil (explodeFrom_ne_nil sep 0 s)
      rw [hws] at ih ⊢
      cases ws with
      | nil => simpa using ih
      | cons w' ws =>
          rw [List.intercalate_cons_cons] at ih
          rw [List.modifyHead_cons, List.intercalate_cons_cons]
          simpa using ih

/-- The parts of a text, put together again. -/
lemma intercalate_explode {sep : Text} (hsep : sep ≠ []) (s : Text) :
    sep.intercalate (explode sep s) = s :=
  intercalate_explodeFrom hsep 0 s

/-- One character as the separator. -/
lemma explode_singleton (c : Char) (s : Text) : explode [c] s = s.splitOn c := by
  rw [explode]
  induction s with
  | nil => rfl
  | cons d s ih =>
      rw [explodeFrom, List.splitOn_cons_eq_if_modifyHead]
      rcases eq_or_ne c d with rfl | h
      · simp [ih]
      · simp [h, h.symm, ih]

/-- No part has the separator in it. -/
lemma not_mem_of_mem_explode {c : Char} {s w : Text} (hw : w ∈ explode [c] s) : c ∉ w := by
  rw [explode_singleton] at hw
  induction s generalizing w with
  | nil => simp_all
  | cons d s ih =>
      obtain ⟨u, us, hus⟩ := List.exists_cons_of_ne_nil (List.splitOn_ne_nil c s)
      rw [List.splitOn_cons_eq_if_modifyHead] at hw
      split_ifs at hw with h
      · rcases List.mem_cons.mp hw with rfl | hw
        · exact List.not_mem_nil
        · exact ih hw
      · rw [hus] at ih hw
        rcases List.mem_cons.mp hw with rfl | hw
        · have hcd : ¬c = d := fun heq => h (by simp [heq])
          simpa [hcd] using ih List.mem_cons_self
        · exact ih (List.mem_cons_of_mem _ hw)

lemma intercalate_append {sep : Text} {p r : List Text} (hp : p ≠ []) (hr : r ≠ []) :
    sep.intercalate (p ++ r) = sep.intercalate p ++ sep ++ sep.intercalate r := by
  induction p with
  | nil => exact absurd rfl hp
  | cons w p ih =>
      cases p with
      | nil => rw [List.singleton_append, List.intercalate_cons_of_ne_nil hr,
          List.intercalate_singleton]
      | cons w' p =>
          rw [List.cons_append, List.intercalate_cons_of_ne_nil (by simp),
            ih (List.cons_ne_nil w' p), List.intercalate_cons_cons]
          simp only [List.append_assoc]

/-- A text whose parts go on after `p` is one that goes on after the text of `p` and a
separator. -/
lemma explode_beyond {c : Char} {s : Text} {p : List Text} (hp : p ≠ [])
    (hc : ∀ w ∈ p, c ∉ w) :
    (p <+: explode [c] s ∧ p ≠ explode [c] s) ↔ [c].intercalate p ++ [c] <+: s := by
  constructor
  · rintro ⟨⟨r, hr⟩, hne⟩
    have hr0 : r ≠ [] := by
      rintro rfl
      exact hne (by simpa using hr)
    refine ⟨[c].intercalate r, ?_⟩
    rw [← intercalate_append hp hr0, hr, intercalate_explode (List.cons_ne_nil c [])]
  · rintro ⟨rest, rfl⟩
    have hparts : explode [c] ([c].intercalate p ++ [c] ++ rest) = p ++ rest.splitOn c := by
      rw [explode_singleton, List.append_assoc, List.singleton_append,
        List.splitOn_append_cons_self, List.splitOn_intercalate c hc hp]
    rw [hparts]
    exact ⟨List.prefix_append _ _, by simp [List.splitOn_ne_nil]⟩

end PhpText
