import AllInDocker.Lib.TimedStore

/-!
A counter that is created by its first tick and dies some time after its window was opened.

The cell of a `Window` is missing, or holds the last count and perhaps a deadline. A tick on a
missing or dead cell starts a new life with the count `1` and no deadline; a later tick adds
`1` and keeps the deadline; opening the window sets the deadline `w` from now. When the
window of a life is opened, and how often, is left open. The log keeps the ticks, the newest
first, and `Reading` says what a tick shows of itself.

* `exists_of_le`: a tick comes after ticks of the same life with all smaller counts.
* `sorted`: lives and counts only grow.
* `apart`: two lives with another between them are at least `w` apart.
* `le_countP_life`: a tick with count `n` has `n` ticks in its life.
* `countP_window_le`: at most `2 * M` ticks with a count of at most `M` fall into a half-open
  interval of length `w`.
-/

/-- What a tick shows: its time, its count and the number of its life. -/
structure Reading (ι τ : Type) where
  time : ι → τ
  count : ι → ℤ
  life : ι → ℕ

/-- The state of the counter: the time, the cell, the number of lives and the log. -/
structure Window (ι τ : Type) where
  now : τ
  cell : Option (Entry ℤ τ)
  last : ℕ
  log : List ι

namespace Window

variable {ι τ : Type} [AddCommGroup τ] [LinearOrder τ]

/-- The states of the counter. -/
inductive Reach (R : Reading ι τ) (w : τ) : Window ι τ → Prop where
  | init (now : τ) : Reach R w ⟨now, none, 0, []⟩
  | wait {W : Window ι τ} (hW : Reach R w W) {t : τ} (hle : W.now ≤ t) :
      Reach R w { W with now := t }
  | openWindow {W : Window ι τ} (hW : Reach R w W) {en : Entry ℤ τ} (hc : W.cell = some en)
      (halive : en.Alive W.now) :
      Reach R w { W with cell := some { en with deadline := some (W.now + w) } }
  | create {W : Window ι τ} (hW : Reach R w W) {e : ι}
      (hdead : ∀ en, W.cell = some en → ¬ en.Alive W.now) (htime : R.time e = W.now)
      (hcount : R.count e = 1) (hlife : R.life e = W.last + 1) :
      Reach R w ⟨W.now, some ⟨1, none⟩, W.last + 1, e :: W.log⟩
  | tick {W : Window ι τ} (hW : Reach R w W) {e : ι} {en : Entry ℤ τ}
      (hc : W.cell = some en) (halive : en.Alive W.now) (htime : R.time e = W.now)
      (hcount : R.count e = en.value + 1) (hlife : R.life e = W.last) :
      Reach R w ⟨W.now, some ⟨en.value + 1, en.deadline⟩, W.last, e :: W.log⟩

/-- What the cell says of the log: it holds the greatest count of the current life, and its
deadline leaves that life at least `w`. -/
structure CellOk (R : Reading ι τ) (w : τ) (W : Window ι τ) (en : Entry ℤ τ) : Prop where
  last : ∃ e ∈ W.log, R.life e = W.last ∧ R.count e = en.value
  greatest : ∀ e ∈ W.log, R.life e = W.last → R.count e ≤ en.value
  deadline : ∀ y ∈ en.deadline, ∀ e ∈ W.log, R.life e = W.last → R.count e = 1 →
    R.time e + w ≤ y

/-- The invariant of the counter. -/
structure Inv (R : Reading ι τ) (w : τ) (W : Window ι τ) : Prop where
  logged : ∀ e ∈ W.log, 1 ≤ R.count e ∧ R.life e ≤ W.last ∧ R.time e ≤ W.now
  noCell : W.cell = none → W.last = 0
  cell : ∀ en, W.cell = some en → CellOk R w W en
  dense : ∀ e ∈ W.log, ∀ m : ℤ, 1 ≤ m → m ≤ R.count e →
    ∃ e' ∈ W.log, R.life e' = R.life e ∧ R.count e' = m
  order : ∀ e ∈ W.log, ∀ e' ∈ W.log, R.life e < R.life e' → R.time e ≤ R.time e'
  gap : ∀ e ∈ W.log, ∀ e' ∈ W.log, R.life e + 2 ≤ R.life e' → R.time e + w ≤ R.time e'

variable {R : Reading ι τ} {w : τ} {W : Window ι τ}

/-- The first tick of the current life. -/
lemma Inv.exists_first (h : Inv R w W) {en : Entry ℤ τ} (hc : W.cell = some en) :
    ∃ c ∈ W.log, R.life c = W.last ∧ R.count c = 1 := by
  obtain ⟨e, he, hlife, -⟩ := (h.cell en hc).last
  obtain ⟨c, hmem, hcl, hcc⟩ := h.dense e he 1 le_rfl (h.logged e he).1
  exact ⟨c, hmem, hcl.trans hlife, hcc⟩

lemma Inv.wait (h : Inv R w W) {t : τ} (hle : W.now ≤ t) : Inv R w { W with now := t } where
  logged e he := ⟨(h.logged e he).1, (h.logged e he).2.1, (h.logged e he).2.2.trans hle⟩
  noCell := h.noCell
  cell en hc := ⟨(h.cell en hc).last, (h.cell en hc).greatest, (h.cell en hc).deadline⟩
  dense := h.dense
  order := h.order
  gap := h.gap

/-- The order of the ticks, with one more at the end. -/
lemma Inv.order_cons (h : Inv R w W) {e : ι} (htime : R.time e = W.now)
    (hlife : W.last ≤ R.life e) : ∀ e₁ ∈ e :: W.log, ∀ e₂ ∈ e :: W.log,
      R.life e₁ < R.life e₂ → R.time e₁ ≤ R.time e₂ := by
  intro e₁ h₁ e₂ h₂ hlt
  rcases List.mem_cons.mp h₁ with rfl | hm₁
  · rcases List.mem_cons.mp h₂ with rfl | hm₂
    · exact le_rfl
    · have := (h.logged e₂ hm₂).2.1
      omega
  · rcases List.mem_cons.mp h₂ with rfl | hm₂
    · rw [htime]
      exact (h.logged e₁ hm₁).2.2
    · exact h.order e₁ hm₁ e₂ hm₂ hlt

/-- The gaps between lives, with one more tick that keeps them. -/
lemma Inv.gap_cons (h : Inv R w W) {e : ι} (hlife : W.last ≤ R.life e)
    (hnew : ∀ e₁ ∈ W.log, R.life e₁ + 2 ≤ R.life e → R.time e₁ + w ≤ R.time e) :
    ∀ e₁ ∈ e :: W.log, ∀ e₂ ∈ e :: W.log,
      R.life e₁ + 2 ≤ R.life e₂ → R.time e₁ + w ≤ R.time e₂ := by
  intro e₁ h₁ e₂ h₂ hlt
  rcases List.mem_cons.mp h₁ with rfl | hm₁
  · rcases List.mem_cons.mp h₂ with rfl | hm₂
    · omega
    · have := (h.logged e₂ hm₂).2.1
      omega
  · rcases List.mem_cons.mp h₂ with rfl | hm₂
    · exact hnew e₁ hm₁ hlt
    · exact h.gap e₁ hm₁ e₂ hm₂ hlt

/-- A tick that goes on counting. -/
lemma Inv.tick (h : Inv R w W) {e : ι} {en : Entry ℤ τ} (hc : W.cell = some en)
    (htime : R.time e = W.now) (hcount : R.count e = en.value + 1) (hlife : R.life e = W.last) :
    Inv R w ⟨W.now, some ⟨en.value + 1, en.deadline⟩, W.last, e :: W.log⟩ where
  logged := by
    rw [List.forall_mem_cons]
    refine ⟨⟨?_, hlife.le, htime.le⟩, h.logged⟩
    obtain ⟨c, hmem, -, hcc⟩ := (h.cell en hc).last
    have := (h.logged c hmem).1
    omega
  noCell hcell := by simp at hcell
  cell en' hc' := by
    obtain rfl := Option.some.inj hc'
    refine ⟨⟨e, List.mem_cons_self .., hlife, hcount⟩, ?_, ?_⟩
    · rintro e' he' hl
      rcases List.mem_cons.mp he' with rfl | he'
      · exact hcount.le
      · have := (h.cell en hc).greatest e' he' hl
        simp only
        omega
    · rintro y hy e' he' hl h1
      rcases List.mem_cons.mp he' with rfl | he'
      · -- not the first tick of this life
        obtain ⟨c, hmem, -, hcc⟩ := (h.cell en hc).last
        have := (h.logged c hmem).1
        omega
      · exact (h.cell en hc).deadline y hy e' he' hl h1
  dense := by
    rw [List.forall_mem_cons]
    constructor
    · intro m h1 hm
      rcases eq_or_lt_of_le hm with rfl | hlt
      · exact ⟨e, List.mem_cons_self .., rfl, rfl⟩
      · obtain ⟨c, hmem, hcl, hcc⟩ := (h.cell en hc).last
        obtain ⟨c', hmem', hcl', hcc'⟩ := h.dense c hmem m h1 (by omega)
        exact ⟨c', List.mem_cons_of_mem _ hmem', by omega, hcc'⟩
    · intro e' he' m h1 hm
      obtain ⟨c, hmem, hcl, hcc⟩ := h.dense e' he' m h1 hm
      exact ⟨c, List.mem_cons_of_mem _ hmem, hcl, hcc⟩
  order := h.order_cons htime hlife.ge
  gap := by
    refine h.gap_cons hlife.ge fun e₁ h₁ hlt => ?_
    obtain ⟨c, hmem, hcl, -⟩ := (h.cell en hc).last
    calc R.time e₁ + w ≤ R.time c := h.gap e₁ h₁ c hmem (by omega)
      _ ≤ R.time e := ((h.logged c hmem).2.2).trans htime.ge

variable [IsOrderedAddMonoid τ]

lemma Inv.openWindow (h : Inv R w W) {en : Entry ℤ τ} (hc : W.cell = some en) :
    Inv R w { W with cell := some { en with deadline := some (W.now + w) } } where
  logged := h.logged
  noCell hcell := by simp at hcell
  cell en' hc' := by
    obtain rfl := Option.some.inj hc'
    refine ⟨(h.cell en hc).last, (h.cell en hc).greatest, ?_⟩
    intro y hy e he _ _
    obtain rfl := Option.some.inj hy
    exact add_le_add_left (h.logged e he).2.2 w
  dense := h.dense
  order := h.order
  gap := h.gap

/-- A tick that starts a new life. -/
lemma Inv.create (h : Inv R w W) {e : ι} (hdead : ∀ en, W.cell = some en → ¬ en.Alive W.now)
    (htime : R.time e = W.now) (hcount : R.count e = 1) (hlife : R.life e = W.last + 1) :
    Inv R w ⟨W.now, some ⟨1, none⟩, W.last + 1, e :: W.log⟩ where
  logged := by
    rw [List.forall_mem_cons]
    refine ⟨⟨hcount.ge, hlife.le, htime.le⟩, fun e' he' => ?_⟩
    obtain ⟨h1, h2, h3⟩ := h.logged e' he'
    exact ⟨h1, h2.trans (Nat.le_succ _), h3⟩
  noCell hcell := by simp at hcell
  cell en hc := by
    obtain rfl := Option.some.inj hc
    refine ⟨⟨e, List.mem_cons_self .., hlife, hcount⟩, ?_, by simp⟩
    rintro e' he' hl
    rcases List.mem_cons.mp he' with rfl | he'
    · exact hcount.le
    · have := (h.logged e' he').2.1
      simp only at hl
      omega
  dense := by
    rw [List.forall_mem_cons]
    constructor
    · intro m h1 hm
      exact ⟨e, List.mem_cons_self .., rfl, by omega⟩
    · intro e' he' m h1 hm
      obtain ⟨c, hc, hcl, hcc⟩ := h.dense e' he' m h1 hm
      exact ⟨c, List.mem_cons_of_mem _ hc, hcl, hcc⟩
  order := h.order_cons htime (by omega)
  gap := by
    refine h.gap_cons (by omega) fun e₁ h₁ hlt => ?_
    -- the life before this one lasted `w`, and `e₁` is no later than its first tick
    have hlast : R.life e₁ < W.last := by omega
    cases hcell : W.cell with
    | none =>
        have := h.noCell hcell
        omega
    | some en =>
        obtain ⟨c, hc, hcl, hcc⟩ := h.exists_first hcell
        have hdead := hdead en hcell
        rw [Entry.Alive] at hdead
        push Not at hdead
        obtain ⟨y, hy, hle⟩ := hdead
        calc R.time e₁ + w ≤ R.time c + w :=
              add_le_add_left (h.order e₁ h₁ c hc (by omega)) w
          _ ≤ y := (h.cell en hcell).deadline y hy c hc hcl hcc
          _ ≤ R.time e := hle.trans htime.ge

lemma Reach.inv (hW : Reach R w W) : Inv R w W := by
  induction hW with
  | init now => exact ⟨by simp, fun _ => rfl, by simp, by simp, by simp, by simp⟩
  | wait _ hle ih => exact ih.wait hle
  | openWindow _ hc _ ih => exact ih.openWindow hc
  | create _ hdead htime hcount hlife ih => exact ih.create hdead htime hcount hlife
  | tick _ hc _ htime hcount hlife ih => exact ih.tick hc htime hcount hlife

/-! ### What the log says -/

/-- A tick comes after ticks of the same life with all smaller counts. -/
lemma Reach.exists_of_le (hW : Reach R w W) {e : ι} (he : e ∈ W.log) {m : ℤ} (h1 : 1 ≤ m)
    (hm : m ≤ R.count e) : ∃ e' ∈ W.log, R.life e' = R.life e ∧ R.count e' = m :=
  hW.inv.dense e he m h1 hm

/-- Lives with another between them are at least `w` apart. -/
lemma Reach.apart (hW : Reach R w W) {e e' : ι} (he : e ∈ W.log) (he' : e' ∈ W.log)
    (h : R.life e + 2 ≤ R.life e') : R.time e + w ≤ R.time e' :=
  hW.inv.gap e he e' he' h

/-- Lives and counts only grow along the log. -/
lemma Reach.sorted (hW : Reach R w W) : W.log.Pairwise fun new old =>
    R.life old < R.life new ∨ R.life old = R.life new ∧ R.count old < R.count new := by
  induction hW with
  | init now => exact List.Pairwise.nil
  | wait _ _ ih => exact ih
  | openWindow _ _ _ ih => exact ih
  | create hW _ _ _ hlife ih =>
      refine List.pairwise_cons.mpr ⟨fun e he => Or.inl ?_, ih⟩
      have := (hW.inv.logged e he).2.1
      omega
  | tick hW hc _ _ hcount hlife ih =>
      refine List.pairwise_cons.mpr ⟨fun e he => ?_, ih⟩
      rcases lt_or_eq_of_le (hW.inv.logged e he).2.1 with hlt | heq
      · exact Or.inl (by omega)
      · have := (hW.inv.cell _ hc).greatest e he heq
        exact Or.inr ⟨by omega, by omega⟩

/-- A tick with count `n` has `n` ticks in its life. -/
lemma Reach.le_countP_life (hW : Reach R w W) {e : ι} (he : e ∈ W.log) {n : ℕ}
    (hn : R.count e = n) : n ≤ W.log.countP fun e' => R.life e' = R.life e := by
  classical
  have hsub : Finset.Icc 1 n ⊆ ((W.log.filter fun e' => R.life e' = R.life e).map
      fun e' => (R.count e').toNat).toFinset := by
    intro m hm
    rw [Finset.mem_Icc] at hm
    obtain ⟨e', he', hl, hc⟩ := hW.exists_of_le he (m := m) (by omega) (by omega)
    simp only [List.mem_toFinset, List.mem_map, List.mem_filter, decide_eq_true_eq]
    exact ⟨e', ⟨he', hl⟩, by omega⟩
  calc n = (Finset.Icc 1 n).card := by simp
    _ ≤ _ := Finset.card_le_card hsub
    _ ≤ _ := List.toFinset_card_le _
    _ = W.log.countP fun e' => R.life e' = R.life e := by
        rw [List.length_map, List.countP_eq_length_filter]

/-- At most `2 * M` ticks with a count of at most `M` fall into an interval of length `w`. -/
lemma Reach.countP_window_le (hW : Reach R w W) (t : τ) (M : ℕ) :
    (W.log.countP fun e => t ≤ R.time e ∧ R.time e < t + w ∧ R.count e ≤ M) ≤ 2 * M := by
  classical
  rw [List.countP_eq_length_filter]
  set l := W.log.filter fun e => t ≤ R.time e ∧ R.time e < t + w ∧ R.count e ≤ M with hl
  have hmem : ∀ e ∈ l, e ∈ W.log ∧ t ≤ R.time e ∧ R.time e < t + w ∧ R.count e ≤ M := by
    intro e he
    simpa [hl, List.mem_filter] using he
  -- life and count tell the ticks apart
  have hnodup : (l.map fun e => (R.life e, R.count e)).Nodup := by
    refine List.pairwise_map.mpr ((hW.sorted.filter _).imp ?_)
    rintro new old (hlt | ⟨-, hlt⟩) heq <;> rw [Prod.mk.injEq] at heq <;> omega
  -- the lives in the interval are two neighbours
  obtain ⟨L, hL⟩ : ∃ L, ∀ e ∈ l, L ≤ R.life e ∧ R.life e ≤ L + 1 := by
    rcases l.eq_nil_or_concat' with hnil | ⟨init, a, hconcat⟩
    · exact ⟨0, by simp [hnil]⟩
    · have ha : a ∈ l := by simp [hconcat]
      refine ⟨R.life a, fun e he => ⟨?_, ?_⟩⟩
      · -- the last of the list is the oldest
        have hsorted : l.Pairwise fun new old => R.life old < R.life new ∨
            R.life old = R.life new ∧ R.count old < R.count new := hW.sorted.filter _
        rw [hconcat, List.pairwise_append] at hsorted
        rw [hconcat, List.mem_append, List.mem_singleton] at he
        rcases he with he | rfl
        · have := hsorted.2.2 e he a (List.mem_singleton_self a)
          omega
        · exact le_rfl
      · by_contra hgt
        have hap := hW.apart (hmem a ha).1 (hmem e he).1 (by omega)
        have : t + w ≤ R.time e := (add_le_add_left (hmem a ha).2.1 w).trans hap
        exact absurd (hmem e he).2.2.1 (not_lt.mpr this)
  have hsub : (l.map fun e => (R.life e, R.count e)).toFinset ⊆
      Finset.Icc L (L + 1) ×ˢ Finset.Icc (1 : ℤ) M := by
    intro x hx
    simp only [List.mem_toFinset, List.mem_map] at hx
    obtain ⟨e, he, rfl⟩ := hx
    have h1 := (hW.inv.logged e (hmem e he).1).1
    have h2 := hL e he
    have h3 := (hmem e he).2.2.2
    simp only [Finset.mem_product, Finset.mem_Icc]
    exact ⟨h2, h1, h3⟩
  calc l.length = (l.map fun e => (R.life e, R.count e)).toFinset.card := by
        rw [List.toFinset_card_of_nodup hnodup, List.length_map]
    _ ≤ (Finset.Icc L (L + 1) ×ˢ Finset.Icc (1 : ℤ) M).card := Finset.card_le_card hsub
    _ = 2 * M := by
        rw [Finset.card_product, Nat.card_Icc, Int.card_Icc]
        congr 1 <;> omega

end Window
