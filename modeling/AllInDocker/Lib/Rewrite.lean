import Mathlib.Tactic

/-!
Replacing words in a text, from left to right.

`rewrite rules t` goes through the text once: where a rule's left side stands, its right side
is put and the scan goes on behind it; where none stands, the letter is kept.

* `rewrite_append`, `rewrite_cons`: one step of the scan. `rewrite_intercalate`: a word
  without the separator is replaced in each part of a text separately.
* `occurrences q t` counts the places where `q` stands in `t`, and `NotWithin q p` says that
  `q` never begins inside `p`, whatever follows.
* `rewrite_rewrite`: replacing `p` and then `q` is replacing both at once, if no `p` begins
  inside a `q` of the text and the first replacement makes no further `q`.
-/

namespace Rewrite

variable {α : Type} [DecidableEq α]

/-- The scan, with a number of letters left to skip. -/
def scan (rules : List (List α × List α)) : ℕ → List α → List α
  | _, [] => []
  | n + 1, _ :: t => scan rules n t
  | 0, c :: t =>
      match rules.find? (·.1.isPrefixOf (c :: t)) with
      | some rule => rule.2 ++ scan rules (rule.1.length - 1) t
      | none => c :: scan rules 0 t

/-- Replace the left sides of the rules by their right sides, all at once. -/
def rewrite (rules : List (List α × List α)) (t : List α) : List α := scan rules 0 t

variable {rules : List (List α × List α)} {p q r r' t u : List α}

@[simp] lemma rewrite_nil : rewrite rules [] = [] := rfl

lemma scan_append (n : ℕ) (hn : u.length = n) : scan rules n (u ++ t) = rewrite rules t := by
  induction u generalizing n with
  | nil =>
      subst hn
      rfl
  | cons c u ih =>
      subst hn
      exact ih u.length rfl

/-- Where the left side of a rule stands, the right side is put. -/
lemma rewrite_append (hp : p ≠ []) (hfind : rules.find? (·.1.isPrefixOf (p ++ t)) = some (p, r)) :
    rewrite rules (p ++ t) = r ++ rewrite rules t := by
  cases p with
  | nil => exact absurd rfl hp
  | cons c p =>
      rw [List.cons_append] at hfind ⊢
      rw [rewrite, scan, hfind]
      exact congrArg (r ++ ·) (scan_append p.length rfl)

/-- Where none stands, the letter is kept. -/
lemma rewrite_cons {c : α} (hfind : rules.find? (·.1.isPrefixOf (c :: t)) = none) :
    rewrite rules (c :: t) = c :: rewrite rules t := by
  rw [rewrite, scan, hfind]
  rfl

/-- Induction along a scan for some words: the text is empty, begins with one of them, or with
a letter at which none of them stands. -/
lemma scan_induction (words : List (List α)) (hwords : ∀ p ∈ words, p ≠ [])
    {motive : List α → Prop} (nil : motive [])
    (hit : ∀ p ∈ words, ∀ t, motive t → motive (p ++ t))
    (miss : ∀ c t, (∀ p ∈ words, ¬ p <+: c :: t) → motive t → motive (c :: t)) (t : List α) :
    motive t := by
  induction hn : t.length using Nat.strong_induction_on generalizing t with
  | _ n ih =>
    subst hn
    by_cases hhit : ∃ p ∈ words, p <+: t
    · obtain ⟨p, hp, u, rfl⟩ := hhit
      have hpos := List.length_pos_iff.mpr (hwords p hp)
      refine hit p hp u (ih u.length ?_ u rfl)
      rw [List.length_append]
      omega
    · cases t with
      | nil => exact nil
      | cons c t =>
          refine miss c t (fun p hp hpre => hhit ⟨p, hp, hpre⟩) (ih t.length ?_ t rfl)
          rw [List.length_cons]
          omega

/-! ### One rule -/

lemma rewrite_one_append (hp : p ≠ []) : rewrite [(p, r)] (p ++ t) = r ++ rewrite [(p, r)] t :=
  rewrite_append hp (by simp)

lemma rewrite_one_cons {c : α} (hp : ¬ p <+: c :: t) :
    rewrite [(p, r)] (c :: t) = c :: rewrite [(p, r)] t :=
  rewrite_cons (by simp [hp])

omit [DecidableEq α] in
/-- A word without the letter `s` that stands before an `s` ends before it. -/
lemma prefix_of_prefix_append_cons {s : α} (hs : s ∉ p) (h : p <+: u ++ s :: t) : p <+: u := by
  obtain hpu | ⟨v, rfl⟩ := List.prefix_or_prefix_of_prefix h (List.prefix_append u _)
  · exact hpu
  · rw [List.prefix_append_right_inj] at h
    cases v with
    | nil => simp
    | cons d v =>
        obtain ⟨rfl, -⟩ := List.cons_prefix_cons.mp h
        exact absurd (by simp) hs

/-- A word without the letter `s` is replaced on both sides of an `s` separately. -/
lemma rewrite_append_cons {s : α} (hp : p ≠ []) (hs : s ∉ p) (u t : List α) :
    rewrite [(p, r)] (u ++ s :: t) = rewrite [(p, r)] u ++ s :: rewrite [(p, r)] t := by
  induction u using scan_induction [p] (by simpa using hp) with
  | nil =>
      refine rewrite_one_cons fun h => hp ?_
      simpa using prefix_of_prefix_append_cons (u := []) hs h
  | hit p' hp' u ih =>
      obtain rfl := List.mem_singleton.mp hp'
      rw [List.append_assoc, rewrite_one_append hp, rewrite_one_append hp, ih, List.append_assoc]
  | miss c u hmiss ih =>
      have hc : ¬ p <+: c :: u := hmiss p (by simp)
      rw [rewrite_one_cons hc, List.cons_append, List.cons_append, rewrite_one_cons, ih]
      exact fun h => hc (prefix_of_prefix_append_cons hs (by simpa using h))

/-- A word without the separator is replaced in each part of a text separately. -/
lemma rewrite_intercalate {s : α} (hp : p ≠ []) (hs : s ∉ p) (parts : List (List α)) :
    [s].intercalate (parts.map (rewrite [(p, r)])) = rewrite [(p, r)] ([s].intercalate parts) := by
  induction parts with
  | nil => rfl
  | cons u parts ih =>
      cases parts with
      | nil => simp
      | cons v parts =>
          rw [List.intercalate_cons_cons, List.append_assoc, List.singleton_append,
            rewrite_append_cons hp hs, ← ih]
          simp [List.intercalate_cons_cons]

/-! ### Where a word stands -/

/-- The number of places where a word stands in a text. -/
def occurrences (q : List α) : List α → ℕ
  | [] => 0
  | c :: t => (if q <+: c :: t then 1 else 0) + occurrences q t

/-- No `q` begins inside `p`, whatever follows. -/
def NotWithin (q p : List α) : Prop := ∀ u ∈ p.tails, u ≠ [] → ¬ q <+: u ∧ ¬ u <+: q

instance (q p : List α) : Decidable (NotWithin q p) :=
  inferInstanceAs (Decidable (∀ u ∈ p.tails, _))

lemma occurrences_append_of_notWithin (h : NotWithin q p) (t : List α) :
    occurrences q (p ++ t) = occurrences q t := by
  induction p with
  | nil => rfl
  | cons c p ih =>
      have hhead : ¬ q <+: c :: (p ++ t) := by
        intro hq
        have hboth := h (c :: p) (by simp) (by simp)
        obtain hqp | hpq := List.prefix_or_prefix_of_prefix hq (List.prefix_append (c :: p) t)
        · exact hboth.1 hqp
        · exact hboth.2 hpq
      rw [List.cons_append, occurrences, if_neg hhead, zero_add]
      exact ih fun u hu => h u (List.mem_cons_of_mem _ hu)

lemma occurrences_le_append (q r t : List α) : occurrences q t ≤ occurrences q (r ++ t) := by
  induction r with
  | nil => exact le_rfl
  | cons c r ih =>
      rw [List.cons_append, occurrences]
      omega

/-- A word that does not begin in the first part of a text is replaced in the rest only. -/
lemma rewrite_append_of_occurrences (h : occurrences q (u ++ t) = occurrences q t) :
    rewrite [(q, r)] (u ++ t) = u ++ rewrite [(q, r)] t := by
  induction u with
  | nil => rfl
  | cons c u ih =>
      have hle := occurrences_le_append q u t
      rw [List.cons_append, occurrences] at h
      split_ifs at h with hhead
      · omega
      · rw [List.cons_append, rewrite_one_cons hhead, ih (by omega), List.cons_append]

/-- A word that does not begin in a part does not stand at its beginning. -/
lemma not_prefix_of_occurrences (hu : u ≠ []) (h : occurrences q (u ++ t) = occurrences q t) :
    ¬ q <+: u ++ t := by
  cases u with
  | nil => exact absurd rfl hu
  | cons c u =>
      have hle := occurrences_le_append q u t
      rw [List.cons_append, occurrences] at h
      split_ifs at h with hhead
      · omega
      · exact hhead

/-! ### One word after the other -/

/-- Replacing `p` keeps every `q` of the text, and if it makes no further one, replacing `q`
afterwards is replacing both at once. -/
lemma rewrite_rewrite (hp : p ≠ []) (hq : q ≠ []) (hqp : NotWithin q p)
    (hqq : NotWithin q q.tail)
    (hpq : ∀ u, q ++ u <:+ t → occurrences p (q ++ u) = occurrences p u) :
    occurrences q t ≤ occurrences q (rewrite [(p, r)] t) ∧
      (occurrences q (rewrite [(p, r)] t) = occurrences q t →
        rewrite [(q, r')] (rewrite [(p, r)] t) = rewrite [(p, r), (q, r')] t) := by
  induction t using scan_induction [p, q] (by simp [hp, hq]) with
  | nil => exact ⟨le_rfl, fun _ => rfl⟩
  | hit w hw t ih =>
      have hsuffix : t <:+ w ++ t := List.suffix_append w t
      obtain ⟨hle, heq⟩ := ih fun u hu => hpq u (hu.trans hsuffix)
      obtain rfl | hw := List.mem_cons.mp hw
      · -- at `p`: its right side must not begin a `q`
        have happ := occurrences_le_append q r (rewrite [(w, r)] t)
        rw [rewrite_one_append hp, occurrences_append_of_notWithin hqp]
        refine ⟨by omega, fun h => ?_⟩
        rw [rewrite_append_of_occurrences (by omega), heq (by omega),
          rewrite_append (r := r) hp (by simp)]
      · -- at `q`: no `p` begins inside it
        obtain rfl := List.mem_singleton.mp hw
        have hnone := hpq t List.suffix_rfl
        have hcount : ∀ t, occurrences w (w ++ t) = occurrences w t + 1 := by
          intro t
          cases w with
          | nil => exact absurd rfl hq
          | cons c w =>
              rw [List.cons_append, occurrences, if_pos ⟨t, rfl⟩]
              have htail := occurrences_append_of_notWithin hqq t
              simp only [List.tail_cons] at htail
              omega
        rw [rewrite_append_of_occurrences hnone, hcount, hcount]
        refine ⟨by omega, fun h => ?_⟩
        rw [rewrite_one_append hq, heq (by omega), rewrite_append hq]
        simp [not_prefix_of_occurrences hq hnone]
  | miss c t hmiss ih =>
      obtain ⟨hle, heq⟩ := ih fun u hu => hpq u (hu.trans (List.suffix_cons c t))
      have hp' : ¬ p <+: c :: t := hmiss p (by simp)
      have hq' : ¬ q <+: c :: t := hmiss q (by simp)
      rw [rewrite_one_cons hp', occurrences, occurrences, if_neg hq']
      split_ifs with hnew
      · exact ⟨by omega, fun h => by omega⟩
      · refine ⟨by omega, fun h => ?_⟩
        rw [rewrite_one_cons hnew, heq (by omega), rewrite_cons (by simp [hp', hq'])]

end Rewrite
