import AllInDocker.Lib.Rewrite

/-!
The substitution command of `sed`, `s/name/replacement/g` with any delimiter.

A replacement is read up to the next delimiter; in it `&` stands for the text that was found,
and a backslash takes the special meaning off `&`, the delimiter and itself. The name is a
word of letters, digits and underscores, which a regular expression finds literally. What text
a `sed` makes with any other script is left open (`Sed.other`); that some of them write further
files, as `s` does with the flag `w`, is not modelled.

* `run_subst`: a replacement without special characters is put in literally, and the lines of
  the text do not matter.
-/

open Rewrite

/-- A `sed`, with what it makes of its input by a script beyond those that are read here: the
edited text, or an error. -/
structure Sed where
  other : List Char → List Char → Option (List Char)

namespace Sed

/-- A piece of a replacement. -/
inductive Piece where
  | char (c : Char)
  | whole
  deriving DecidableEq

/-- The pieces of a replacement up to the delimiter, and what follows it. The flag says that
the last character was a backslash. -/
def readReplacement (δ : Char) : Bool → List Char → Option (List Piece × List Char)
  | _, [] => none
  | true, c :: w =>
      if c = δ ∨ c = '&' ∨ c = '\\' then
        (readReplacement δ false w).map fun x => (.char c :: x.1, x.2)
      else none
  | false, c :: w =>
      if c = δ then some ([], w)
      else if c = '\n' then none
      else if c = '\\' then readReplacement δ true w
      else (readReplacement δ false w).map fun x =>
        ((if c = '&' then .whole else .char c) :: x.1, x.2)

/-- A word that a regular expression finds literally. -/
def isName (w : List Char) : Bool := !w.isEmpty && w.all fun c => c.isAlphanum || c == '_'

/-- The name and the replacement of a script that is one substitution, everywhere in a line. -/
def readSubst : List Char → Option (List Char × List Piece)
  | 's' :: δ :: w =>
      if isName (w.takeWhile (· ≠ δ)) then
        match readReplacement δ false (w.drop ((w.takeWhile (· ≠ δ)).length + 1)) with
        | some (pieces, ['g']) => some (w.takeWhile (· ≠ δ), pieces)
        | _ => none
      else none
  | _ => none

/-- What a piece of a replacement stands for. -/
def Piece.text (name : List Char) : Piece → List Char
  | .char c => [c]
  | .whole => name

/-- Run a script on a text, line by line. -/
def run (sed : Sed) (script text : List Char) : Option (List Char) :=
  match readSubst script with
  | some (name, pieces) =>
      some (['\n'].intercalate ((text.splitOn '\n').map
        (rewrite [(name, pieces.flatMap (Piece.text name))])))
  | none => sed.other script text

/-- `sδnameδreplacementδg` -/
def subst (δ : Char) (name replacement : List Char) : List Char :=
  's' :: δ :: (name ++ δ :: (replacement ++ [δ, 'g']))

/-- A replacement in which nothing is special. -/
def Plain (δ : Char) (w : List Char) : Prop := ∀ c ∈ w, c ≠ δ ∧ c ≠ '\n' ∧ c ≠ '&' ∧ c ≠ '\\'

instance (δ : Char) (w : List Char) : Decidable (Plain δ w) :=
  List.decidableBAll _ w

lemma readReplacement_of_plain {δ : Char} {w : List Char} (hw : Plain δ w) (u : List Char) :
    readReplacement δ false (w ++ δ :: u) = some (w.map .char, u) := by
  induction w with
  | nil => simp [readReplacement]
  | cons c w ih =>
      obtain ⟨hδ, hline, hamp, hback⟩ := hw c (by simp)
      have hrest := ih fun d hd => hw d (by simp [hd])
      simp [readReplacement, hδ, hline, hamp, hback, hrest]

lemma readSubst_of_plain {δ : Char} {name w : List Char} (hname : isName name = true)
    (hδ : δ ∉ name) (hw : Plain δ w) :
    readSubst (subst δ name w) = some (name, w.map .char) := by
  have htake : (name ++ δ :: (w ++ [δ, 'g'])).takeWhile (· ≠ δ) = name := by
    rw [List.takeWhile_append_of_pos (by simpa using fun c hc (h : c = δ) => hδ (h ▸ hc))]
    simp
  have hdrop : (name ++ δ :: (w ++ [δ, 'g'])).drop (name.length + 1) = w ++ [δ, 'g'] := by
    simp [List.drop_append]
  simp only [subst, readSubst, htake, hname, if_true, hdrop, readReplacement_of_plain hw]

/-- A replacement without special characters is put in literally. -/
lemma run_subst (sed : Sed) {δ : Char} {name w : List Char} (hname : isName name = true)
    (hδ : δ ∉ name) (hline : '\n' ∉ name) (hw : Plain δ w) (text : List Char) :
    sed.run (subst δ name w) text = some (rewrite [(name, w)] text) := by
  have hne : name ≠ [] := by
    rintro rfl
    simp [isName] at hname
  have hpieces : (w.map Piece.char).flatMap (Piece.text name) = w := by
    simp [List.flatMap_map, Piece.text]
  rw [run, readSubst_of_plain hname hδ hw]
  simp only [hpieces, rewrite_intercalate hne hline, List.intercalate_splitOn]

end Sed
