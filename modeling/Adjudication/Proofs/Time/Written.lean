import Mathlib.Data.List.Basic
import Adjudication.Proofs.Decimal.Numerals
import Adjudication.Proofs.Time.Calendar

/-!
Timestamps are read back from their texts. An instant that a clock gives is a date of the calendar with a time of day in UTC,
and each of its numbers is written with as many digits as it may need: so the text takes a fixed form, with microseconds
or without, and reading goes through it part by part.
-/

namespace Adjudication.Time

open Decimal (digitsOf padLeft valueOf)

/-! ### Dates -/

/-- A date of the calendar in the years that have four digits. -/
structure IsDate (y m d : Nat) : Prop where
  year : 1 ≤ y ∧ y ≤ 9999
  month : 1 ≤ m ∧ m ≤ 12
  day : 1 ≤ d ∧ d ≤ daysInMonth y m

/-- A day that is the 366th of its year, counted from March, is the last of February in a leap year. -/
theorem isLeap_of_lastDay {n y : Int} (h0 : 0 ≤ n) (h1 : n ≤ 146096)
    (hy : y = (n - n / 1460 + n / 36524 - n / 146096) / 365) (hlast : n - (365 * y + y / 4 - y / 100) = 365) (era : Nat) :
    isLeap (y + era * 400 + 1).toNat = true := by
  obtain ⟨c, u, w, x, h⟩ := exists_dayOfEra h0 h1
  rw [h.year_eq] at hy
  obtain ⟨hspans, hcenturies⟩ := h.leapYears hy
  obtain ⟨hn, hc, hu, hw, hx, hleap⟩ := h
  obtain ⟨hw3, hfull⟩ := hleap (by omega)
  simp only [isLeap, Bool.or_eq_true, Bool.and_eq_true, beq_iff_eq, bne_iff_ne]
  omega

/-- Months other than February have their days in every year. -/
theorem day_le_daysInMonth {d m : Int} (hm : m = (5 * d + 2) / 153) (h0 : 0 ≤ m) (h1 : m ≤ 10) (year : Nat) :
    (d - (153 * m + 2) / 5 + 1).toNat ≤ daysInMonth year (if m < 10 then m + 3 else m - 9).toNat := by
  obtain rfl | rfl | rfl | rfl | rfl | rfl | rfl | rfl | rfl | rfl | rfl : m = 0 ∨ m = 1 ∨ m = 2 ∨ m = 3 ∨ m = 4 ∨
      m = 5 ∨ m = 6 ∨ m = 7 ∨ m = 8 ∨ m = 9 ∨ m = 10 := by omega
  all_goals
    simp [daysInMonth]
    omega

/-- Days from the year 1 to the year 9999 have dates. -/
theorem dateOfDays_isDate {days : Int} (h0 : daysFromEpoch 1 1 1 ≤ days) (h1 : days ≤ daysFromEpoch 9999 12 31) :
    IsDate (dateOfDays days).1 (dateOfDays days).2.1 (dateOfDays days).2.2 := by
  have hlast : daysFromEpoch 9999 12 31 = 2932896 := by decide
  obtain ⟨era, n, hera, hn, hn0, hn1⟩ := exists_era h0
  rw [daysFromEpoch_first] at h0
  rw [hlast] at h1
  simp only [dateOfDays, hera, hn]
  obtain ⟨⟨hy0, hy1⟩, hd0, hd1⟩ := dayOfYear_bounds hn0 hn1 rfl
  have hleap := isLeap_of_lastDay hn0 hn1 rfl
  generalize (n - n / 1460 + n / 36524 - n / 146096) / 365 = y at *
  generalize hd : n - (365 * y + y / 4 - y / 100) = d at *
  obtain ⟨⟨hm0, hm1⟩, hk⟩ := month_bounds hd0 hd1
  generalize hm : (5 * d + 2) / 153 = m at *
  refine ⟨?_, ?_, ?_, ?_⟩
  · split <;> split <;> omega
  · split <;> omega
  · omega
  · by_cases hfebruary : m = 11
    · subst hfebruary
      by_cases hfull : d = 365
      · have hyear : (y + era * 400 + if (if (11 : Int) < 10 then (11 : Int) + 3 else 11 - 9) ≤ 2 then 1 else 0).toNat =
            (y + era * 400 + 1).toNat := rfl
        rw [hyear, daysInMonth, if_pos (by decide), if_pos (hleap hfull era), hfull]
        decide
      · have hleast : ∀ year, 28 ≤ daysInMonth year 2 := fun year => by
          rw [daysInMonth, if_pos rfl]
          split <;> decide
        exact Nat.le_trans (by omega) (hleast _)
    · exact day_le_daysInMonth hm.symm hm0 (by omega) _

namespace Timestamp

/-- A date of the calendar with a time of day in UTC. -/
structure InUtc (t : Timestamp) : Prop where
  date : IsDate t.year t.month t.day
  hour : t.hour ≤ 23
  minute : t.minute ≤ 59
  second : t.second ≤ 59
  microsecond : t.microsecond < 1000000
  offset : t.offset = some 0

theorem inUtc_ofMicroseconds {n : Int} (h0 : daysFromEpoch 1 1 1 * 86400000000 ≤ n)
    (h1 : n < (daysFromEpoch 9999 12 31 + 1) * 86400000000) : (ofMicroseconds n).InUtc := by
  have hlast : daysFromEpoch 9999 12 31 = 2932896 := by decide
  rw [daysFromEpoch_first] at h0
  rw [hlast] at h1
  have hdate : IsDate (dateOfDays (n / 1000000 / 86400)).1 (dateOfDays (n / 1000000 / 86400)).2.1
      (dateOfDays (n / 1000000 / 86400)).2.2 :=
    dateOfDays_isDate (by rw [daysFromEpoch_first]; omega) (by rw [hlast]; omega)
  rw [ofMicroseconds_eq]
  exact ⟨hdate, by dsimp only; omega, by dsimp only; omega, by dsimp only; omega, by dsimp only; omega, rfl⟩

theorem inUtc_of_after {day microseconds : Int} {t : Timestamp} (h : after day microseconds = .ok t) : t.InUtc := by
  obtain ⟨⟨hfirst, hlast⟩, rfl⟩ := after_eq_ok h
  exact inUtc_ofMicroseconds (by omega) (by omega)

/-! ### Reading -/

theorem twoDigits?_padLeft {n : Nat} (h : n < 100) :
    ∃ a b, padLeft 2 (digitsOf n) = [a, b] ∧ twoDigits? a b = some n := by
  obtain ⟨hlength, hdigits, hvalue⟩ := Decimal.padLeft_digitsOf 2 (by decide) h
  obtain ⟨a, b, hab⟩ := List.length_eq_two.1 hlength
  rw [hab] at hdigits hvalue
  refine ⟨a, b, hab, ?_⟩
  rw [twoDigits?, hdigits a (by simp), hdigits b (by simp), hvalue]
  rfl

theorem readDate_padLeft {y m d : Nat} (h : IsDate y m d) (rest : List Char) :
    readDate (padLeft 4 (digitsOf y) ++ '-' :: (padLeft 2 (digitsOf m) ++ '-' :: (padLeft 2 (digitsOf d) ++ rest))) =
      .ok ((y, m, d), rest) := by
  obtain ⟨⟨hyear0, hyear1⟩, ⟨hmonth0, hmonth1⟩, hday0, hday1⟩ := h
  have hdays : daysInMonth y m ≤ 31 := by
    rw [daysInMonth]
    split
    · split <;> omega
    · split <;> omega
  obtain ⟨hlength, hdigits, hvalue⟩ := Decimal.padLeft_digitsOf 4 (n := y) (by decide) (by omega)
  obtain ⟨y1, y2, y3, y4, hy⟩ := List.length_eq_four.1 hlength
  obtain ⟨m1, m2, hm, hmonth⟩ := twoDigits?_padLeft (n := m) (by omega)
  obtain ⟨d1, d2, hd, hday⟩ := twoDigits?_padLeft (n := d) (by omega)
  rw [hy] at hdigits hvalue
  have hall : [y1, y2, y3, y4].all Decimal.isDigit = true := List.all_eq_true.2 hdigits
  rw [hy, hm, hd]
  simp only [List.cons_append, List.nil_append, readDate, hall, hmonth, hday, hvalue]
  rw [if_neg (by simp), if_neg (by simp), if_neg (by simp), if_neg (by omega), if_neg (by omega)]

theorem readSeconds?_padLeft {second : Nat} (h : second ≤ 59) {fraction : List Char} {microsecond : Nat} {c : Char}
    (hfraction : (microsecond = 0 ∧ fraction = []) ∨
      (microsecond < 1000000 ∧ fraction = '.' :: padLeft 6 (digitsOf microsecond)))
    (hc : Decimal.isDigit c = false ∧ c ≠ '.' ∧ c ≠ ',') (rest : List Char) :
    readSeconds? (':' :: (padLeft 2 (digitsOf second) ++ (fraction ++ c :: rest))) = some ((second, microsecond), c :: rest) := by
  obtain ⟨a, b, hab, hsecond⟩ := twoDigits?_padLeft (n := second) (by omega)
  rw [hab]
  rcases hfraction with ⟨rfl, rfl⟩ | ⟨hmicro, rfl⟩
  · simp [readSeconds?, hsecond, Nat.not_lt.2 h, hc]
  · obtain ⟨hlength, hdigits, hvalue⟩ := Decimal.padLeft_digitsOf 6 (n := microsecond) (by decide) hmicro
    generalize padLeft 6 (digitsOf microsecond) = ds at *
    have htake : (ds ++ c :: rest).takeWhile Decimal.isDigit = ds := by
      rw [List.takeWhile_append_of_pos hdigits]
      simp [hc.1]
    have hdrop : (ds ++ c :: rest).dropWhile Decimal.isDigit = c :: rest := by
      rw [List.dropWhile_append_of_pos hdigits]
      simp [hc.1]
    have hmicroseconds : microsecondsOf ds = microsecond := by
      rw [microsecondsOf, List.take_append_of_le_length (Nat.le_of_eq hlength.symm),
        List.take_of_length_le (Nat.le_of_eq hlength),
        hvalue]
    have hne : ds ≠ [] := fun hnil => by simp [hnil] at hlength
    simp [readSeconds?, hsecond, Nat.not_lt.2 h, htake, hdrop, hmicroseconds, hne]

/-- Microseconds as they are written, if there are any. -/
def fractionText (microsecond : Nat) : List Char :=
  if microsecond = 0 then [] else '.' :: padLeft 6 (digitsOf microsecond)

theorem text_toList {t : Timestamp} (h : t.offset = some 0) : t.text.toList =
    padLeft 4 (digitsOf t.year) ++ '-' :: (padLeft 2 (digitsOf t.month) ++ '-' :: (padLeft 2 (digitsOf t.day) ++
      'T' :: (padLeft 2 (digitsOf t.hour) ++ ':' :: (padLeft 2 (digitsOf t.minute) ++
        ':' :: (padLeft 2 (digitsOf t.second) ++ (fractionText t.microsecond ++ ['Z'])))))) := by
  have hfraction : (if t.microsecond = 0 then "" else "." ++ padded 6 t.microsecond).toList = fractionText t.microsecond := by
    rw [fractionText]
    split
    · rfl
    · simp [padded]
  have hoffset : (offsetText (some 0)).toList = ['Z'] := rfl
  rw [text, h]
  simp only [String.toList_append, hfraction, hoffset]
  simp [padded]

theorem readFull?_text {t : Timestamp} (h : t.InUtc) : readFull? t.text.toList = some t := by
  obtain ⟨a, b, hab, hhour⟩ := twoDigits?_padLeft (n := t.hour) (by have := h.hour; omega)
  obtain ⟨c, d, hcd, hminute⟩ := twoDigits?_padLeft (n := t.minute) (by have := h.minute; omega)
  have hfraction : (t.microsecond = 0 ∧ fractionText t.microsecond = []) ∨
      (t.microsecond < 1000000 ∧ fractionText t.microsecond = '.' :: padLeft 6 (digitsOf t.microsecond)) := by
    rw [fractionText]
    split
    next hzero => exact .inl ⟨hzero, rfl⟩
    next => exact .inr ⟨h.microsecond, rfl⟩
  have hseconds := readSeconds?_padLeft h.second hfraction (c := 'Z') (by decide) []
  have hlimits : ¬(23 < t.hour ∨ 59 < t.minute) := by
    have := h.hour
    have := h.minute
    omega
  have hzone : readZone? ['Z'] = some (some 0) := rfl
  rw [text_toList h.offset, readFull?, readDate_padLeft h.date, hab, hcd]
  simp only [List.cons_append, List.nil_append, Except.toOption, hhour, hminute, hseconds, hzone, Option.bind_eq_bind,
    Option.bind_some, hlimits]
  rw [if_neg (by decide), if_neg not_false, ← h.offset]

theorem isAscii_of_mem_text {t : Timestamp} (h : t.offset = some 0) : ∀ c ∈ t.text.toList, c.toNat < 0x80 := by
  have hdigits : ∀ width n, ∀ c ∈ padLeft width (digitsOf n), c.toNat < 0x80 := fun width n c hc => by
    rcases Decimal.isNumeral_of_mem_padLeft hc with hdigit | rfl | rfl | rfl | rfl
    · have hc : c.toNat ≤ '9'.toNat := UInt32.le_iff_toNat_le.1 (by simp [Char.isDigit] at hdigit; exact hdigit.2)
      exact Nat.lt_of_le_of_lt hc (by decide)
    all_goals decide
  have hfraction : ∀ c ∈ fractionText t.microsecond, c.toNat < 0x80 := by
    rw [fractionText]
    split
    · exact fun c hc => nomatch hc
    · exact List.forall_mem_cons.2 ⟨by decide, hdigits _ _⟩
  rw [text_toList h]
  simp only [List.forall_mem_append, List.forall_mem_cons]
  exact ⟨hdigits _ _, by decide, hdigits _ _, by decide, hdigits _ _, by decide, hdigits _ _, by decide, hdigits _ _,
    by decide, hdigits _ _, hfraction, by decide, fun c hc => nomatch hc⟩

/-- Each byte of a text in ASCII is the number of its character. -/
theorem map_encodeList_of_ascii {cs : List Char} (h : ∀ c ∈ cs, c.toNat < 0x80) :
    (Text.Utf8.encodeList cs).map (fun b => Char.ofNat b.toNat) = cs := by
  induction cs with
  | nil => rfl
  | cons c cs ih =>
    obtain ⟨hc, hcs⟩ := List.forall_mem_cons.1 h
    have hbyte : Text.Utf8.encodeChar c = [UInt8.ofNat c.toNat] := by
      rw [Text.Utf8.encodeChar, Text.Utf8.encodeNat, if_pos hc]
      rfl
    rw [Text.Utf8.encodeList, List.flatMap_cons, List.map_append, hbyte, ← Text.Utf8.encodeList, ih hcs, List.map_singleton,
      Text.Utf8.toNat_ofNat (by omega), Char.ofNat_toNat]
    rfl

/-- An instant in UTC is read back from its text. -/
theorem ofText_text {t : Timestamp} (h : t.InUtc) : ofText t.text = .ok t := by
  have hbytes : ((Text.Utf8.encode t.text).map fun b => Char.ofNat b.toNat) = t.text.toList :=
    map_encodeList_of_ascii (isAscii_of_mem_text h.offset)
  rw [ofText, hbytes, readFull?_text h]

end Timestamp
end Adjudication.Time
