import Mathlib.Tactic

/-!
Words of a shell and the paths they name.

An unquoted expansion is split into fields at blanks, tabs and newlines. A path is the list of
its names from the root on; a word is resolved from left to right, where an empty name and `.`
stay and `..` goes up.

* `resolve_append`: what is appended to a word changes the last name of the path, or adds one.
* `resolve_isPrefix_iff`: a word with something appended names a path below the word itself
  exactly when the word ends in a slash, in `.` or in `..`.

Commands that may fail are run one after the other until one does, as under `set -e`
(`untilFailure`); `untilFailure_of_chained` is the rule for what they leave, and
`untilFailure_invariant` the one for what none of them changes.
-/

namespace Shell

/-- A word of the shell. -/
abbrev Word := List Char

/-- The names from the root to a file or a directory. -/
abbrev FilePath := List Word

/-! ### Fields -/

/-- The separators an unquoted expansion is split at. -/
def isBlank (c : Char) : Bool := c == ' ' || c == '\t' || c == '\n'

/-- The fields of an unquoted expansion. -/
def fields (w : Word) : List Word := (w.splitOnP isBlank).filter (· ≠ [])

/-- A nonempty word without separators is one field. -/
lemma fields_of_plain {w : Word} (hw : ∀ c ∈ w, isBlank c = false) (hne : w ≠ []) :
    fields w = [w] := by
  rw [fields, List.splitOnP_eq_singleton hw]
  simp [hne]

/-! ### Paths -/

/-- One name further. -/
def push (p : FilePath) (name : Word) : FilePath :=
  if name = [] ∨ name = ['.'] then p else if name = ['.', '.'] then p.dropLast else p ++ [name]

/-- The path a word names. -/
def resolve (cwd : FilePath) (w : Word) : FilePath :=
  (w.splitOn '/').foldl push (if w.head? = some '/' then [] else cwd)

/-- What follows the last slash of a word. -/
def lastName (w : Word) : Word := (w.splitOn '/').getLast (List.splitOn_ne_nil '/' w)

/-- A name that is neither empty nor one of the two dotted ones. -/
def Proper (name : Word) : Prop := name ≠ [] ∧ name ≠ ['.'] ∧ name ≠ ['.', '.']

lemma push_of_proper {name : Word} (h : Proper name) (p : FilePath) :
    push p name = p ++ [name] := by
  rw [push, if_neg (not_or.mpr ⟨h.1, h.2.1⟩), if_neg h.2.2]

/-- A name of three characters or more is proper. -/
lemma proper_append (w : Word) {t : Word} (hlen : 3 ≤ t.length) : Proper (w ++ t) := by
  refine ⟨fun h => ?_, fun h => ?_, fun h => ?_⟩ <;>
    · have hl := congrArg List.length h
      simp only [List.length_append, List.length_cons, List.length_nil] at hl
      omega

/-- Pushing a name that is not proper leads to a prefix. -/
lemma push_isPrefix {name : Word} (h : ¬ Proper name) (p : FilePath) : push p name <+: p := by
  rw [push]
  split
  · exact List.prefix_rfl
  · split
    · exact List.dropLast_prefix p
    · next h1 h2 => exact absurd ⟨fun h => h1 (.inl h), fun h => h1 (.inr h), h2⟩ h

/-- Text without slashes that is appended to a word is appended to its last name. -/
lemma splitOn_append (w : Word) :
    ∃ names, ∀ t : Word, '/' ∉ t → (w ++ t).splitOn '/' = names ++ [lastName w ++ t] := by
  suffices h : ∃ names last, ∀ t : Word, '/' ∉ t → (w ++ t).splitOn '/' = names ++ [last ++ t] by
    obtain ⟨names, last, h⟩ := h
    have hw := h [] (by simp)
    simp only [List.append_nil] at hw
    have hlast : lastName w = last := by simp [lastName, hw]
    exact ⟨names, hlast ▸ h⟩
  induction w with
  | nil =>
      refine ⟨[], [], fun t ht => ?_⟩
      rw [List.splitOn_eq_splitOnP, List.nil_append, List.splitOnP_eq_singleton]
      · simp
      · intro c hc
        exact beq_false_of_ne fun heq => ht (heq ▸ hc)
  | cons c w ih =>
      obtain ⟨names, last, ih⟩ := ih
      by_cases hc : c = '/'
      · refine ⟨[] :: names, last, fun t ht => ?_⟩
        simp [List.splitOn_cons_eq_if_modifyHead, hc, ih t ht]
      · -- the character joins the first name, which may be the last one too
        cases names with
        | nil =>
            refine ⟨[], c :: last, fun t ht => ?_⟩
            simp [List.splitOn_cons_eq_if_modifyHead, hc, ih t ht]
        | cons name names =>
            refine ⟨(c :: name) :: names, last, fun t ht => ?_⟩
            simp [List.splitOn_cons_eq_if_modifyHead, hc, ih t ht]

/-- The path of a word with text appended, against the path of the word itself: the directory
that holds the last name is the same. -/
lemma resolve_append (cwd : FilePath) {w : Word} (hw : w ≠ []) :
    ∃ p, ∀ t : Word, '/' ∉ t → resolve cwd (w ++ t) = push p (lastName w ++ t) := by
  obtain ⟨names, h⟩ := splitOn_append w
  refine ⟨names.foldl push (if w.head? = some '/' then [] else cwd), fun t ht => ?_⟩
  rw [resolve, h t ht, List.foldl_append, List.head?_append_of_ne_nil w hw]
  rfl

/-- The name of the file that a word with text appended leads to. -/
lemma getLast?_resolve_append (cwd : FilePath) {w t : Word} (hw : w ≠ []) (ht : '/' ∉ t)
    (hlen : 3 ≤ t.length) : (resolve cwd (w ++ t)).getLast? = some (lastName w ++ t) := by
  obtain ⟨p, h⟩ := resolve_append cwd hw
  rw [h t ht, push_of_proper (proper_append _ hlen), List.getLast?_concat]

/-- Text appended to a word names a path below the word itself exactly when the word ends in
a slash, in `.` or in `..`. -/
lemma resolve_isPrefix_iff (cwd : FilePath) {w t : Word} (hw : w ≠ []) (ht : '/' ∉ t)
    (hlen : 3 ≤ t.length) :
    resolve cwd w <+: resolve cwd (w ++ t) ↔ ¬ Proper (lastName w) := by
  obtain ⟨p, h⟩ := resolve_append cwd hw
  have hself := h [] (by simp)
  simp only [List.append_nil] at hself
  rw [hself, h t ht, push_of_proper (proper_append _ hlen)]
  constructor
  · intro hprefix hlast
    rw [push_of_proper hlast, List.prefix_append_right_inj] at hprefix
    have hl := congrArg List.length (List.cons_prefix_cons.mp hprefix).1
    rw [List.length_append] at hl
    omega
  · intro hlast
    exact (push_isPrefix hlast p).trans (List.prefix_append p _)

/-- Different texts appended to a word name different paths. -/
lemma resolve_append_inj (cwd : FilePath) {w t t' : Word} (hw : w ≠ []) (ht : '/' ∉ t)
    (ht' : '/' ∉ t') (hlen : 3 ≤ t.length) (hlen' : 3 ≤ t'.length)
    (heq : resolve cwd (w ++ t) = resolve cwd (w ++ t')) : t = t' := by
  obtain ⟨p, h⟩ := resolve_append cwd hw
  rw [h t ht, h t' ht', push_of_proper (proper_append _ hlen),
    push_of_proper (proper_append _ hlen')] at heq
  simpa using heq

/-! ### Commands that may fail -/

variable {κ σ : Type}

/-- Run commands until one fails; its name, if one does, and the state it fails in. -/
def untilFailure : List (κ × (σ → Option σ)) → σ → Option κ × σ
  | [], s => (none, s)
  | (k, c) :: cs, s =>
      match c s with
      | some s' => untilFailure cs s'
      | none => (some k, s)

/-- Each command leads from what holds before it to what holds before the next one, and the
last to `J`. -/
def Chained (I : κ → σ → Prop) (J : σ → Prop) : List (κ × (σ → Option σ)) → Prop
  | [] => True
  | [(k, c)] => ∀ s s', I k s → c s = some s' → J s'
  | (k, c) :: (k', c') :: cs =>
      (∀ s s', I k s → c s = some s' → I k' s') ∧ Chained I J ((k', c') :: cs)

/-- What holds before a command holds where the run stops at it, and `J` where it ends. -/
lemma untilFailure_of_chained (I : κ → σ → Prop) (J : σ → Prop) {k : κ} {c : σ → Option σ}
    {cs : List (κ × (σ → Option σ))} {s s' : σ} (hcs : Chained I J ((k, c) :: cs)) (hs : I k s) :
    (∀ k', untilFailure ((k, c) :: cs) s = (some k', s') → I k' s') ∧
      (untilFailure ((k, c) :: cs) s = (none, s') → J s') := by
  induction cs generalizing k c s with
  | nil =>
      simp only [untilFailure]
      cases hc : c s with
      | none => simpa using fun h => h ▸ hs
      | some s₁ => simpa using fun h => h ▸ hcs s s₁ hs hc
  | cons kc cs ih =>
      rw [untilFailure]
      cases hc : c s with
      | none => simpa using fun h => h ▸ hs
      | some s₁ => exact ih hcs.2 (hcs.1 s s₁ hs hc)

/-- What every command keeps is kept by a run, wherever it stops. -/
lemma untilFailure_invariant (C : σ → Prop) {cs : List (κ × (σ → Option σ))} {s : σ}
    (hcs : ∀ kc ∈ cs, ∀ s s', C s → kc.2 s = some s' → C s') (hs : C s) :
    C (untilFailure cs s).2 := by
  induction cs generalizing s with
  | nil => exact hs
  | cons kc cs ih =>
      rw [untilFailure]
      cases hc : kc.2 s with
      | none => exact hs
      | some s' => exact ih (fun kc' h => hcs kc' (by simp [h])) (hcs kc (by simp) s s' hs hc)

end Shell
