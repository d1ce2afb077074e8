import TemplateEngine.Time.Instant

-- The calendar counts days without gaps: every number is that of a day which it has.
namespace TemplateEngine.Day

-- A day of an era of 400 years lies in one of four centuries, and there in one of 25 spans of four
-- years. The last span of a century is a day short, but for that of the last one.
theorem exists_span {d : Int} (hd : 0 ≤ d) (hd' : d < 146097) :
    ∃ c q v : Int, (0 ≤ c ∧ c ≤ 3) ∧ (0 ≤ q ∧ q ≤ 24) ∧ (0 ≤ v ∧ v ≤ 1460) ∧
      (q = 24 → c < 3 → v < 1460) ∧ d = 36524 * c + 1461 * q + v := by
  refine ⟨min (d / 36524) 3, (d - 36524 * min (d / 36524) 3) / 1461,
    (d - 36524 * min (d / 36524) 3) % 1461, ?_⟩
  omega

theorem yearOfEra_eq {c q v : Int} (hc : 0 ≤ c ∧ c ≤ 3) (hq : 0 ≤ q ∧ q ≤ 24) (hv : 0 ≤ v ∧ v ≤ 1460)
    (hshort : q = 24 → c < 3 → v < 1460) {d : Int} (hd : d = 36524 * c + 1461 * q + v) :
    (d - d / 1460 + d / 36524 - d / 146096) / 365 = 100 * c + 4 * q + min (v / 365) 3 := by
  by_cases hlast : c = 3 ∧ q = 24 ∧ v = 1460
  · omega
  · have hcentury : d / 36524 = c := by omega
    have hera : d / 146096 = 0 := by omega
    have hspan : d / 1460 = 25 * c + q + (24 * c + q + v) / 1460 := by omega
    rw [hcentury, hera, hspan]
    omega

-- The year of an era that a day belongs to, the day of that year, and when it can be the last one.
theorem dayOfYear_bounds {d y : Int} (hd : 0 ≤ d) (hd' : d < 146097)
    (hy : y = (d - d / 1460 + d / 36524 - d / 146096) / 365) {r : Int}
    (hr : r = d - (365 * y + y / 4 - y / 100)) :
    (0 ≤ y ∧ y ≤ 399) ∧ (0 ≤ r ∧ r ≤ 365) ∧ (r = 365 → y % 4 = 3 ∧ (y % 100 ≠ 99 ∨ y = 399)) := by
  obtain ⟨c, q, v, hc, hq, hv, hshort, hspan⟩ := exists_span hd hd'
  rw [yearOfEra_eq hc hq hv hshort hspan] at hy
  have hfour : y / 4 = 25 * c + q := by omega
  have hhundred : y / 100 = c := by omega
  rw [hfour, hhundred] at hr
  omega

-- The day of a year that begins in March, by the number of its month.
def monthOf (r : Int) : Int := (5 * r + 2) / 153

-- What the calendar makes of a number: an era, a year of it and a day of that year.
theorem exists_ofNumber (n : Int) : ∃ era y r : Int, (0 ≤ y ∧ y ≤ 399) ∧ (0 ≤ r ∧ r ≤ 365) ∧
    (r = 365 → y % 4 = 3 ∧ (y % 100 ≠ 99 ∨ y = 399)) ∧
    n = era * 146097 + (365 * y + y / 4 - y / 100) + r - 719468 ∧
    ofNumber n =
      if monthOf r < 10 then
        ⟨y + era * 400, (monthOf r + 3).toNat, (r - (153 * monthOf r + 2) / 5 + 1).toNat⟩
      else ⟨y + era * 400 + 1, (monthOf r - 9).toNat, (r - (153 * monthOf r + 2) / 5 + 1).toNat⟩ := by
  have hd := Int.emod_nonneg (n + 719468) (show (146097 : Int) ≠ 0 by decide)
  have hd' := Int.emod_lt_of_pos (n + 719468) (show (0 : Int) < 146097 by decide)
  obtain ⟨hy, hr, hlast⟩ := dayOfYear_bounds hd hd' rfl rfl
  refine ⟨(n + 719468) / 146097, _, _, hy, hr, hlast, by omega, ?_⟩
  unfold ofNumber monthOf
  dsimp only at hr ⊢
  split
  · rw [if_neg (by omega)]
  · rw [if_pos (by omega)]

-- The number of a day whose year of an era and day of that year are known.
theorem number_eq (era y r m : Int) {year : Int} {month day : Nat} (hy : 0 ≤ y ∧ y ≤ 399)
    (hyear : (if month ≤ 2 then year - 1 else year) = y + era * 400)
    (hmonth : ((month : Int) + 9) % 12 = m) (hday : (day : Int) = r - (153 * m + 2) / 5 + 1) :
    number ⟨year, month, day⟩ = era * 146097 + (365 * y + y / 4 - y / 100) + r - 719468 := by
  have hera : (y + era * 400) / 400 = era := by omega
  have hrest : (y + era * 400) % 400 = y := by omega
  unfold number
  dsimp only
  rw [hyear, hmonth, hday, hera, hrest]
  omega

theorem monthOf_bounds {r : Int} (hr : 0 ≤ r ∧ r ≤ 365) :
    (0 ≤ monthOf r ∧ monthOf r ≤ 11) ∧ (153 * monthOf r + 2) / 5 ≤ r := by
  unfold monthOf
  omega

theorem number_ofNumber (n : Int) : (ofNumber n).number = n := by
  obtain ⟨era, y, r, hy, hr, -, hn, heq⟩ := exists_ofNumber n
  obtain ⟨hm, hday⟩ := monthOf_bounds hr
  rw [heq]
  split
  · rw [number_eq era y r (monthOf r) hy (by split <;> omega) (by omega) (by omega)]
    exact hn.symm
  · rw [number_eq era y r (monthOf r) hy (by split <;> omega) (by omega) (by omega)]
    exact hn.symm

-- The lengths of the months add up: a day of the year lies within its month. Only the last day of a
-- leap year is the twenty-ninth of its month.
theorem day_le_lengthOfMonth {r : Int} (hr : 0 ≤ r ∧ r ≤ 365) (year : Int) :
    (r - (153 * monthOf r + 2) / 5 + 1).toNat ≤ lengthOfMonth year (monthOf r + 3).toNat := by
  unfold lengthOfMonth monthOf
  rw [if_neg (by omega)]
  split <;> omega

theorem day_le_lengthOfMonth_late {r : Int} (hr : 0 ≤ r ∧ r ≤ 365) (year : Int) (hm : ¬monthOf r < 10)
    (hleap : r = 365 → isLeap year = true) :
    (r - (153 * monthOf r + 2) / 5 + 1).toNat ≤ lengthOfMonth year (monthOf r - 9).toNat := by
  unfold monthOf at hm ⊢
  unfold lengthOfMonth
  split
  · split
    · omega
    · next hcommon =>
      have hr' : r ≠ 365 := fun h => hcommon (hleap h)
      omega
  · rw [if_neg (by omega)]
    omega

theorem isLeap_of_era {era y : Int} (hfour : y % 4 = 3) (hhundred : y % 100 ≠ 99 ∨ y = 399) :
    isLeap (y + era * 400 + 1) = true := by
  simp only [isLeap, Bool.and_eq_true, Bool.or_eq_true, beq_iff_eq, bne_iff_ne]
  omega

theorem isValid_ofNumber (n : Int) : (ofNumber n).isValid = true := by
  obtain ⟨era, y, r, hy, hr, hlast, -, heq⟩ := exists_ofNumber n
  obtain ⟨hm, hday⟩ := monthOf_bounds hr
  rw [heq]
  split
  · have hlength := day_le_lengthOfMonth hr (y + era * 400)
    simp only [isValid, Bool.and_eq_true, decide_eq_true_eq]
    omega
  · next hlate =>
    have hlength := day_le_lengthOfMonth_late hr (y + era * 400 + 1) hlate fun h =>
      isLeap_of_era (hlast h).1 (hlast h).2
    simp only [isValid, Bool.and_eq_true, decide_eq_true_eq]
    omega

end TemplateEngine.Day
