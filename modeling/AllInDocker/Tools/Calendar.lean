import AllInDocker.Tools.Backup

/-!
The clock of the backups. In UTC, `date +'%Y-%m-%d-%H:%M:%S'` prints every second differently
until the year 10000 (`clock_of_utcDate`): the calendar does not repeat a day (`civil_injective`)
and the numbers are printed in full width (`decimal_inj`).
-/

namespace AllInDocker

open Shell

/-- The clock prints each of the times in `T` differently, in one width and without slashes. -/
structure Clock (m : Machine) (T : Set ℕ) : Prop where
  injOn : Set.InjOn m.date T
  length : ∀ t ∈ T, ∀ t' ∈ T, (m.date t).length = (m.date t').length
  slash : ∀ t ∈ T, '/' ∉ m.date t

/-! ### Days -/

/-- The year of a day in an era of 400 years. -/
lemma yearOfEra_spec {doe : ℕ} (h : doe < 146097) :
    ∃ yoe doy, (doe - doe / 1460 + doe / 36524 - doe / 146096) / 365 = yoe ∧ yoe < 400 ∧
      doe = 365 * yoe + yoe / 4 - yoe / 100 + doy ∧ doy < 366 := by
  obtain ⟨q, r, hq, hr⟩ : ∃ q r, doe = 1460 * q + r ∧ r < 1460 :=
    ⟨doe / 1460, doe % 1460, by omega, by omega⟩
  obtain ⟨yoe, hyoe⟩ : ∃ yoe, (1459 * q + r + doe / 36524 - doe / 146096) / 365 = yoe := ⟨_, rfl⟩
  have hdays : doe - doe / 1460 = 1459 * q + r := by omega
  rw [hdays]
  refine ⟨yoe, doe - (365 * yoe + yoe / 4 - yoe / 100), hyoe, ?_⟩
  clear hdays
  by_cases hlast : doe = 146096
  · omega
  · have hl : doe / 146096 = 0 := by omega
    obtain ⟨c, hc⟩ : ∃ c, doe / 36524 = c := ⟨_, rfl⟩
    rw [hc, hl, Nat.sub_zero] at hyoe
    have hc3 : c ≤ 3 := by omega
    have hcentury : yoe / 100 = c := by
      clear hl hlast
      interval_cases c <;> omega
    have hyear : 365 * yoe ≤ 1459 * q + r + c ∧ 1459 * q + r + c < 365 * yoe + 365 := by omega
    clear hyoe hl hc hlast
    -- a year of the cycle before or after, at the ends of `r`
    have hcycle : r + c < q ∧ yoe / 4 + 1 = q ∨ q ≤ r + c ∧ yoe / 4 = q ∨
        1460 + q ≤ r + c ∧ yoe / 4 = q + 1 := by omega
    rcases hcycle with hcycle | hcycle | hcycle <;> omega

/-- A day of a year that begins in March. -/
lemma civil_spec (days : ℕ) : ∃ era yoe doy mp d, civil days =
      (if mp < 10 then yoe + era * 400 else yoe + era * 400 + 1,
        if mp < 10 then mp + 3 else mp - 9, d + 1) ∧
      days + 719468 = 146097 * era + (365 * yoe + yoe / 4 - yoe / 100 + doy) ∧ yoe < 400 ∧
      doy = (153 * mp + 2) / 5 + d ∧ mp < 12 ∧ d < 31 := by
  obtain ⟨yoe, doy, hyoe, hlt, hdoe, hdoy⟩ :=
    yearOfEra_spec (Nat.mod_lt (days + 719468) (by omega : 0 < 146097))
  have hsub : (days + 719468) % 146097 - (365 * yoe + yoe / 4 - yoe / 100) = doy := by omega
  refine ⟨(days + 719468) / 146097, yoe, doy, (5 * doy + 2) / 153,
    doy - (153 * ((5 * doy + 2) / 153) + 2) / 5, ?_, by omega, hlt, by omega, by omega, by omega⟩
  simp only [civil, hyoe, hsub]

/-- Every day has its own date. -/
lemma civil_injective : Function.Injective civil := by
  intro a b h
  obtain ⟨era, yoe, doy, mp, d, ha, hdays, hyoe, hdoy, hmp, hd⟩ := civil_spec a
  obtain ⟨era', yoe', doy', mp', d', hb, hdays', hyoe', hdoy', hmp', hd'⟩ := civil_spec b
  rw [ha, hb] at h
  simp only [Prod.mk.injEq] at h
  obtain ⟨hyear, hmonth, hday⟩ := h
  obtain rfl : mp = mp' := by
    split_ifs at hmonth <;> omega
  obtain ⟨rfl, rfl⟩ : era = era' ∧ yoe = yoe' := by
    split_ifs at hyear <;> omega
  omega

/-- The last day of the year 9999 has the number 2932896. -/
lemma civil_bounds {days : ℕ} (h : days < 2932897) :
    (civil days).1 < 10000 ∧ (civil days).2.1 < 100 ∧ (civil days).2.2 < 100 := by
  obtain ⟨era, yoe, doy, mp, d, hcivil, hdays, hyoe, hdoy, hmp, hd⟩ := civil_spec days
  rw [hcivil]
  refine ⟨?_, ?_, ?_⟩
  · show (if mp < 10 then yoe + era * 400 else yoe + era * 400 + 1) < 10000
    split_ifs <;> omega
  · show (if mp < 10 then mp + 3 else mp - 9) < 100
    split_ifs <;> omega
  · show d + 1 < 100
    omega

/-! ### Texts -/

lemma length_decimal (width n : ℕ) : (decimal width n).length = width := by
  induction width generalizing n with
  | zero => rfl
  | succ width ih => rw [decimal, List.length_append, ih, List.length_singleton]

/-- A digit is the character of one number only. -/
lemma digitChar_inj {a b : ℕ} (ha : a < 10) (hb : b < 10)
    (h : Nat.digitChar a = Nat.digitChar b) : a = b := by
  have hdigits : ∀ a < 10, ∀ b < 10, Nat.digitChar a = Nat.digitChar b → a = b := by decide
  exact hdigits a ha b hb h

lemma slash_notMem_decimal (width n : ℕ) : '/' ∉ decimal width n := by
  have hdigits : ∀ a < 10, '/' ≠ Nat.digitChar a := by decide
  induction width generalizing n with
  | zero => simp [decimal]
  | succ width ih =>
      rw [decimal, List.mem_append, List.mem_singleton, not_or]
      exact ⟨ih _, hdigits _ (Nat.mod_lt n (by decide))⟩

/-- Numbers that fit into the width are printed differently. -/
lemma decimal_inj {width a b : ℕ} (ha : a < 10 ^ width) (hb : b < 10 ^ width)
    (h : decimal width a = decimal width b) : a = b := by
  induction width generalizing a b with
  | zero => omega
  | succ width ih =>
      obtain ⟨hinit, hlast⟩ := List.append_inj' h rfl
      rw [pow_succ] at ha hb
      have hdiv := ih (by omega) (by omega) hinit
      have hmod := digitChar_inj (Nat.mod_lt a (by decide)) (Nat.mod_lt b (by decide))
        (List.singleton_inj.mp hlast)
      omega

/-- The last number of a text. -/
lemma decimal_inj_append {width a b : ℕ} {sep : Char} {w w' : Word} (ha : a < 10 ^ width)
    (hb : b < 10 ^ width) (h : w ++ sep :: decimal width a = w' ++ sep :: decimal width b) :
    w = w' ∧ a = b := by
  obtain ⟨hw, hdec⟩ := List.append_inj' h (by simp [length_decimal])
  exact ⟨hw, decimal_inj ha hb (List.cons.inj hdec).2⟩

/-- The date and the time of day, from the text. -/
lemma utcDate_inj {t t' : ℕ} (ht : t / 86400 < 2932897) (ht' : t' / 86400 < 2932897)
    (h : utcDate t = utcDate t') : civil (t / 86400) = civil (t' / 86400) ∧
      t / 3600 % 24 = t' / 3600 % 24 ∧ t / 60 % 60 = t' / 60 % 60 ∧ t % 60 = t' % 60 := by
  simp only [utcDate] at h
  obtain ⟨hy, hm, hd⟩ := civil_bounds ht
  obtain ⟨hy', hm', hd'⟩ := civil_bounds ht'
  generalize civil (t / 86400) = c at *
  generalize civil (t' / 86400) = c' at *
  obtain ⟨h, hsec⟩ := decimal_inj_append (by omega) (by omega) h
  obtain ⟨h, hmin⟩ := decimal_inj_append (by omega) (by omega) h
  obtain ⟨h, hhour⟩ := decimal_inj_append (by omega) (by omega) h
  obtain ⟨h, hday⟩ := decimal_inj_append hd hd' h
  obtain ⟨h, hmonth⟩ := decimal_inj_append hm hm' h
  have hyear := decimal_inj hy hy' h
  exact ⟨Prod.ext hyear (Prod.ext hmonth hday), hhour, hmin, hsec⟩

/-- Until the year 10000 every second has its own date in UTC. -/
lemma clock_of_utcDate {m : Machine} (hm : m.date = utcDate) :
    Clock m (Set.Iio 253402300800) := by
  refine ⟨fun t ht t' ht' h => ?_, fun t _ t' _ => ?_, fun t _ => ?_⟩
  · rw [Set.mem_Iio] at ht ht'
    rw [hm] at h
    obtain ⟨hcivil, hhour, hmin, hsec⟩ := utcDate_inj (by omega) (by omega) h
    have hday := civil_injective hcivil
    omega
  · rw [hm]
    simp only [utcDate, List.length_append, List.length_cons, length_decimal]
  · rw [hm]
    simp only [utcDate, List.mem_append, List.mem_cons, slash_notMem_decimal, or_false, not_or]
    decide

end AllInDocker
