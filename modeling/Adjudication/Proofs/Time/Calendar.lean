import Adjudication.Time.Timestamp

/-!
The calendar counts days both ways: a day's date leads back to the day, and so a point of time that is given by its
microseconds leads back to them. Years are counted from March, in eras of 400; within an era a day is told by centuries,
by spans of four years in a century, and by years in a span, of which the last one may have a day more.
-/

namespace Adjudication.Time

/-- A day of an era: `c` centuries, `u` spans of four years, `w` years and `x` days have gone by. -/
structure DayOfEra (n c u w x : Int) : Prop where
  eq : n = 36524 * c + 1461 * u + 365 * w + x
  centuries : 0 ≤ c ∧ c ≤ 3
  spans : 0 ≤ u ∧ u ≤ 24
  years : 0 ≤ w ∧ w ≤ 3
  days : 0 ≤ x ∧ x ≤ 365
  leap : x = 365 → w = 3 ∧ (u < 24 ∨ c = 3)

theorem exists_dayOfEra {n : Int} (h0 : 0 ≤ n) (h1 : n ≤ 146096) :
    ∃ c u w x : Int, DayOfEra n c u w x := by
  obtain ⟨c, hc⟩ : ∃ c, c = min (n / 36524) 3 := ⟨_, rfl⟩
  obtain ⟨r, hr⟩ : ∃ r, r = n - 36524 * c := ⟨_, rfl⟩
  obtain ⟨w, hw⟩ : ∃ w, w = min (r % 1461 / 365) 3 := ⟨_, rfl⟩
  refine ⟨c, r / 1461, w, r % 1461 - 365 * w, ?_, ?_, ?_, ?_, ?_, ?_⟩ <;> omega

/-- The year of an era by its days. -/
theorem DayOfEra.year_eq {n c u w x : Int} (h : DayOfEra n c u w x) :
    (n - n / 1460 + n / 36524 - n / 146096) / 365 = 100 * c + 4 * u + w := by
  obtain ⟨hn, hc, hu, hw, hx, hleap⟩ := h
  by_cases hlast : n = 146096
  · subst hlast
    omega
  · have hcentury : n / 36524 = c := by omega
    have hera : n / 146096 = 0 := by omega
    -- the days of the leap years that have gone by may fill a year more
    have hspan : (n / 1460 = 25 * c + u ∧ x ≤ 364) ∨ (n / 1460 = 25 * c + u + 1 ∧ 1 ≤ x) := by omega
    omega

/-- The leap years that have gone by, by the year. -/
theorem DayOfEra.leapYears {n c u w x y : Int} (h : DayOfEra n c u w x) (hy : y = 100 * c + 4 * u + w) :
    y / 4 = 25 * c + u ∧ y / 100 = c := by
  obtain ⟨hn, hc, hu, hw, hx, hleap⟩ := h
  omega

/-- The day of a year by the days of its era. -/
theorem dayOfYear_bounds {n y : Int} (h0 : 0 ≤ n) (h1 : n ≤ 146096)
    (hy : y = (n - n / 1460 + n / 36524 - n / 146096) / 365) :
    (0 ≤ y ∧ y ≤ 399) ∧ 0 ≤ n - (365 * y + y / 4 - y / 100) ∧ n - (365 * y + y / 4 - y / 100) ≤ 365 := by
  obtain ⟨c, u, w, x, h⟩ := exists_dayOfEra h0 h1
  rw [h.year_eq] at hy
  obtain ⟨hspans, hcenturies⟩ := h.leapYears hy
  obtain ⟨hn, hc, hu, hw, hx, hleap⟩ := h
  omega

/-- The month and the day in it of a day of a year that is counted from March. -/
theorem month_bounds {n : Int} (h0 : 0 ≤ n) (h1 : n ≤ 365) :
    (0 ≤ (5 * n + 2) / 153 ∧ (5 * n + 2) / 153 ≤ 11) ∧ 1 ≤ n - (153 * ((5 * n + 2) / 153) + 2) / 5 + 1 := by
  omega

theorem daysFromEpoch_first : daysFromEpoch 1 1 1 = -719162 := by decide

/-- A day from the year 1 on is told by its era and the day in it. -/
theorem exists_era {days : Int} (h : daysFromEpoch 1 1 1 ≤ days) :
    ∃ (era : Nat) (n : Int), (days + 719468).fdiv 146097 = era ∧ days + 719468 - era * 146097 = n ∧ 0 ≤ n ∧ n ≤ 146096 := by
  rw [daysFromEpoch_first] at h
  rw [Int.fdiv_eq_ediv_of_nonneg _ (by omega)]
  exact ⟨((days + 719468) / 146097).toNat, _, by omega, rfl, by omega, by omega⟩

/-- The date of a day from the year 1 on leads back to the day. -/
theorem daysFromEpoch_dateOfDays {days : Int} (h : daysFromEpoch 1 1 1 ≤ days) :
    daysFromEpoch (dateOfDays days).1 (dateOfDays days).2.1 (dateOfDays days).2.2 = days := by
  obtain ⟨era, n, hera, hn, hn0, hn1⟩ := exists_era h
  simp only [dateOfDays, hera, hn]
  obtain ⟨⟨hy0, hy1⟩, hd0, hd1⟩ := dayOfYear_bounds hn0 hn1 rfl
  generalize (n - n / 1460 + n / 36524 - n / 146096) / 365 = y at *
  generalize hd : n - (365 * y + y / 4 - y / 100) = d at *
  obtain ⟨⟨hm0, hm1⟩, hk⟩ := month_bounds hd0 hd1
  generalize (5 * d + 2) / 153 = m at *
  simp only [daysFromEpoch, Int.toNat_of_nonneg (Int.le_trans (by decide) hk)]
  -- the months from January on belong to the next year of the calendar
  by_cases hlate : m < 10
  · have hmonth : (((m + 3).toNat + 9) % 12 : Nat) = m.toNat := by omega
    have hyear : (y + era * 400 + 0).fdiv 400 = era := by
      rw [Int.fdiv_eq_ediv_of_nonneg _ (by omega)]
      omega
    rw [if_pos hlate, if_neg (show ¬m + 3 ≤ 2 by omega), if_neg (show ¬(m + 3).toNat ≤ 2 by omega), hmonth,
      Int.toNat_of_nonneg (by omega), Int.toNat_of_nonneg hm0, hyear,
      show y + era * 400 + 0 - era * 400 = y by omega]
    omega
  · have hmonth : (((m - 9).toNat + 9) % 12 : Nat) = m.toNat := by omega
    have hyear : (y + era * 400 + 1 - 1).fdiv 400 = era := by
      rw [Int.fdiv_eq_ediv_of_nonneg _ (by omega)]
      omega
    rw [if_neg hlate, if_pos (show m - 9 ≤ 2 by omega), if_pos (show (m - 9).toNat ≤ 2 by omega), hmonth,
      Int.toNat_of_nonneg (by omega), Int.toNat_of_nonneg hm0, hyear,
      show y + era * 400 + 1 - 1 - era * 400 = y by omega]
    omega

namespace Timestamp

/-- An instant by the days and the seconds and microseconds of the day. -/
theorem ofMicroseconds_eq (n : Int) : ofMicroseconds n =
    let (y, m, d) := dateOfDays (n / 1000000 / 86400)
    let rest := (n / 1000000 % 86400).toNat
    ⟨y, m, d, rest / 3600, rest / 60 % 60, rest % 60, (n % 1000000).toNat, some 0⟩ := by
  rw [ofMicroseconds, ofEpoch, Int.fdiv_eq_ediv_of_nonneg _ (by decide), Int.fmod_eq_emod_of_nonneg _ (by decide),
    Int.fdiv_eq_ediv_of_nonneg _ (by decide), Int.fmod_eq_emod_of_nonneg _ (by decide)]

theorem after_eq_ok {day microseconds : Int} {t : Timestamp} (h : after day microseconds = .ok t) :
    (daysFromEpoch 1 1 1 ≤ day + microseconds / 86400000000 ∧
      day + microseconds / 86400000000 ≤ daysFromEpoch 9999 12 31) ∧
    t = ofMicroseconds (day * 86400000000 + microseconds) := by
  rw [after, Int.fdiv_eq_ediv_of_nonneg _ (by decide)] at h
  split at h
  · cases h
  · split at h
    · cases h
    next hrange =>
      rw [not_or, Int.not_lt, Int.not_lt] at hrange
      exact ⟨hrange, (Except.ok.inj h).symm⟩

theorem toMicroseconds_ofMicroseconds {n : Int} (h : daysFromEpoch 1 1 1 * 86400000000 ≤ n) :
    (ofMicroseconds n).toMicroseconds = n := by
  rw [daysFromEpoch_first] at h
  have hdays : daysFromEpoch 1 1 1 ≤ n / 1000000 / 86400 := by
    rw [daysFromEpoch_first]
    omega
  simp only [ofMicroseconds_eq, toMicroseconds, daysFromEpoch_dateOfDays hdays, Option.getD_some]
  omega

/-- An instant that is given by its distance from the start of a day is that far from it. -/
theorem toMicroseconds_of_after {day microseconds : Int} {t : Timestamp} (h : after day microseconds = .ok t) :
    t.toMicroseconds = day * 86400000000 + microseconds := by
  obtain ⟨⟨hfirst, -⟩, rfl⟩ := after_eq_ok h
  refine toMicroseconds_ofMicroseconds ?_
  rw [daysFromEpoch_first] at hfirst ⊢
  omega

end Timestamp
end Adjudication.Time
