import Mathlib.Algebra.Order.Ring.Int
import Libanet.Base.TimeZone

/-!
# The calendar

Days and dates go back and forth. `getYearMonthDay` counts from a March that
starts a period of 400 years, so that the leap day is the last of its year:
`a` days after it, `b` is the century, `c` the day in it, `d` the year of the
century, `e` the day of that year and `m` its month. As long as `a` is not
negative, all of these are not, and C's division is the floored one; as long
as `4 * a + 3` is an `int`, so is everything else. In this range, which is
that of `breaks_back`, a second survives being broken into a date and a time.

Before it, dates come out that are none; and after it, the first
multiplication overflows.
-/

namespace Libanet

/-- The parts of a day, as in `getYearMonthDay`. -/
structure DayParts (a b c d e m : Int) : Prop where
  century : b = (4 * a + 3) / 146097
  centuryDay : c = a - b * 146097 / 4
  year : d = (4 * c + 3) / 1461
  yearDay : e = c - 1461 * d / 4
  month : m = (5 * e + 2) / 153

namespace DayParts

variable {a b c d e m : Int}

theorem of_day (a : Int) : ∃ b c d e m, DayParts a b c d e m :=
  ⟨_, _, _, _, _, rfl, rfl, rfl, rfl, rfl⟩

theorem centuryDay_bounds (h : DayParts a b c d e m) : 0 ≤ c ∧ c ≤ 36524 := by
  have hb := h.century
  have hc := h.centuryDay
  omega

theorem year_bounds (h : DayParts a b c d e m) : 0 ≤ d ∧ d ≤ 99 := by
  have hc := h.centuryDay_bounds
  have hd := h.year
  omega

theorem yearDay_bounds (h : DayParts a b c d e m) : 0 ≤ e ∧ e ≤ 365 := by
  have hc := h.centuryDay_bounds
  have hd := h.year
  have he := h.yearDay
  omega

theorem month_bounds (h : DayParts a b c d e m) : 0 ≤ m ∧ m ≤ 11 := by
  have he := h.yearDay_bounds
  have hm := h.month
  omega

/-- The day of its month, from 0. -/
theorem monthDay_bounds (h : DayParts a b c d e m) :
    0 ≤ e - (153 * m + 2) / 5 ∧ e - (153 * m + 2) / 5 ≤ 30 := by
  have he := h.yearDay_bounds
  have hm := h.month
  omega

/-- The year begins in March, in the calendar in January. -/
theorem calendarMonth (h : DayParts a b c d e m) :
    (1 ≤ m + 3 - 12 * (m / 10) ∧ m + 3 - 12 * (m / 10) ≤ 12) ∧
      m / 10 = (14 - (m + 3 - 12 * (m / 10))) / 12 := by
  have hm := h.month_bounds
  have hten : m / 10 = 0 ∨ m / 10 = 1 := by omega
  rcases hten with hten | hten
  · rw [hten]
    omega
  · rw [hten]
    omega

end DayParts

theorem getYearMonthDay_eq {a b c d e m : Int} (h : DayParts a b c d e m) (hl : 0 ≤ a)
    (hu : a ≤ 536870911) :
    getYearMonthDay (a - 32044) = .ok {
      year := b * 100 + d - 4800 + m / 10
      month := m + 3 - 12 * (m / 10)
      day := e - (153 * m + 2) / 5 + 1 } := by
  have bc := h.centuryDay_bounds
  have bd := h.year_bounds
  have be := h.yearDay_bounds
  have bm := h.month_bounds
  obtain ⟨hb, hc, hd, he, hm⟩ := h
  have bb : 0 ≤ b ∧ b ≤ 14699 := by omega
  have tb : (4 * a + 3).tdiv 146097 = b := by
    rw [Int.tdiv_eq_ediv_of_nonneg (by omega), hb]
  have tc : a - (b * 146097).tdiv 4 = c := by
    rw [Int.tdiv_eq_ediv_of_nonneg (by omega), hc]
  have td : (4 * c + 3).tdiv 1461 = d := by
    rw [Int.tdiv_eq_ediv_of_nonneg (by omega), hd]
  have te : c - (1461 * d).tdiv 4 = e := by
    rw [Int.tdiv_eq_ediv_of_nonneg (by omega), he]
  have tm : (5 * e + 2).tdiv 153 = m := by
    rw [Int.tdiv_eq_ediv_of_nonneg (by omega), hm]
  have tday : (153 * m + 2).tdiv 5 = (153 * m + 2) / 5 :=
    Int.tdiv_eq_ediv_of_nonneg (by omega)
  have tyear : m.tdiv 10 = m / 10 := Int.tdiv_eq_ediv_of_nonneg bm.1
  clear hb hc hd he hm
  simp (disch := omega) only [getYearMonthDay, Int.sub_add_cancel, signed_int_bind, tb, tc, td,
    te, tm, tday, tyear]
  rfl

theorem getJulianDayNumber_eq {year month day a y m : Int} (hmonth : 1 ≤ month ∧ month ≤ 12)
    (hday : 0 ≤ day ∧ day ≤ 31) (ha : a = (14 - month) / 12) (hy : y = year + 4800 - a)
    (hm : m = month + 12 * a - 3) (hl : 0 ≤ y) (hu : y ≤ 5000000) :
    getJulianDayNumber year month day =
      .ok (day + (153 * m + 2) / 5 + y * 365 + y / 4 - y / 100 + y / 400 - 32045) := by
  have ta : (14 - month).tdiv 12 = a := by
    rw [Int.tdiv_eq_ediv_of_nonneg (by omega), ha]
  have tm : (153 * m + 2).tdiv 5 = (153 * m + 2) / 5 :=
    Int.tdiv_eq_ediv_of_nonneg (by omega)
  have tdiv : ∀ n, y.tdiv n = y / n := fun n => Int.tdiv_eq_ediv_of_nonneg hl
  have ba : 0 ≤ a ∧ a ≤ 1 := by omega
  have bm : 0 ≤ m ∧ m ≤ 11 := by omega
  clear ha
  simp (disch := omega) only [getJulianDayNumber, signed_int_bind, ta, ← hy, ← hm, tm, tdiv]
  exact signed_of (fits_int.mpr (by omega))

/-- The parts of a day of the range are those of its date. -/
theorem getYearMonthDay_parts {j : Int} (hl : -32044 ≤ j) (hu : j ≤ 536838867) :
    ∃ b c d e m, DayParts (j + 32044) b c d e m ∧ getYearMonthDay j = .ok {
      year := b * 100 + d - 4800 + m / 10
      month := m + 3 - 12 * (m / 10)
      day := e - (153 * m + 2) / 5 + 1 } := by
  obtain ⟨b, c, d, e, m, hparts⟩ := DayParts.of_day (j + 32044)
  have hymd := getYearMonthDay_eq hparts (by omega) (by omega)
  rw [Int.add_sub_cancel] at hymd
  exact ⟨b, c, d, e, m, hparts, hymd⟩

/-- Within the range, the date of a day leads back to the day. -/
theorem getJulianDayNumber_getYearMonthDay {j : Int} (hl : -32044 ≤ j) (hu : j ≤ 536838867) :
    ∃ ymd, getYearMonthDay j = .ok ymd ∧
      getJulianDayNumber ymd.year ymd.month ymd.day = .ok j := by
  obtain ⟨b, c, d, e, m, hparts, hymd⟩ := getYearMonthDay_parts hl hu
  refine ⟨_, hymd, ?_⟩
  have bd := hparts.year_bounds
  have bday := hparts.monthDay_bounds
  obtain ⟨hmonth, hmarch⟩ := hparts.calendarMonth
  have hb := hparts.century
  have hc := hparts.centuryDay
  have he := hparts.yearDay
  have bb : 0 ≤ b ∧ b ≤ 14699 := by omega
  -- the days before a year are those of its centuries and those since
  have hcentury : b * 146097 / 4 = 36524 * b + b / 4 := by omega
  have hyear : 1461 * d / 4 = 365 * d + d / 4 := by omega
  have hfour : (b * 100 + d) / 4 = 25 * b + d / 4 := by omega
  have hhundred : (b * 100 + d) / 100 = b := by omega
  have hfourHundred : (b * 100 + d) / 400 = b / 4 := by omega
  clear hymd hb
  dsimp only
  rw [getJulianDayNumber_eq (y := b * 100 + d) (m := m) hmonth (by omega) hmarch (by omega)
    (by omega) (by omega) (by omega), hfour, hhundred, hfourHundred]
  congr 1
  omega

theorem toInt_of {x : Int} (hl : -2147483648 ≤ x) (hu : x ≤ 2147483647) : toInt x = x :=
  Int.bmod_eq_of_le (by omega) (by omega)

/-- The seconds of the range: those of the days `getYearMonthDay` can do. -/
def InCalendar (t : Int) : Prop :=
  -2472632 * kSecondsPerDay ≤ t ∧ t < 534398280 * kSecondsPerDay

theorem InCalendar.bounds {t : Int} (h : InCalendar t) :
    -213635404800 ≤ t ∧ t < 46172011392000 := h

/-- What `BreakTime` makes of the truncated quotient and remainder is the day
and the second in it. -/
theorem BreakTime_eq {t : Int} (ht : InCalendar t) :
    BreakTime t = (do
      let ymd ← getYearMonthDay (t / 86400 + 2440588)
      return { fillHMS (t % 86400).toNat {} with
        year := ymd.year, month := ymd.month, day := ymd.day }) := by
  obtain ⟨hl, hu⟩ := ht.bounds
  have hsum := Int.mul_tdiv_add_tmod t 86400
  have hlt := Int.tmod_lt_of_pos t (show (0 : Int) < 86400 by omega)
  have hgt := Int.lt_tmod_of_pos t (show (0 : Int) < 86400 by omega)
  have hday : kSecondsPerDay = 86400 := rfl
  have hepoch : Date.kJulianDayOf1970_01_01 = 2440588 := rfl
  unfold BreakTime
  rw [hday, hepoch, toInt_of (by omega) (by omega), toInt_of (by omega) (by omega)]
  by_cases hneg : t.tmod 86400 < 0
  · have hsec : t.tmod 86400 + 86400 = t % 86400 := by omega
    have hdays : t.tdiv 86400 - 1 = t / 86400 := by omega
    rw [if_pos hneg]
    simp (disch := omega) only [signed_int_bind, pure_bind, hsec, hdays]
    rfl
  · have hsec : t.tmod 86400 = t % 86400 := by omega
    have hdays : t.tdiv 86400 = t / 86400 := by omega
    rw [if_neg hneg]
    simp (disch := omega) only [signed_int_bind, pure_bind, hsec, hdays]
    rfl

/-- The time of day leads back to the second of the day. -/
theorem fromUtcTime_eq {year month day j s : Int} {dt : DateTime}
    (hdt : dt = { fillHMS s.toNat {} with year := year, month := month, day := day })
    (hj : getJulianDayNumber year month day = .ok j) (hs : 0 ≤ s ∧ s < 86400)
    (hdays : -2147483648 ≤ j - 2440588 ∧ j - 2440588 ≤ 2147483647) :
    fromUtcTime dt = .ok ((j - 2440588) * 86400 + s) := by
  have hday : kSecondsPerDay = 86400 := rfl
  have hepoch : Date.kJulianDayOf1970_01_01 = 2440588 := rfl
  have hhour : dt.hour = s / 3600 := by
    rw [hdt]
    simp only [fillHMS]
    omega
  have hminute : dt.minute = s / 60 % 60 := by
    rw [hdt]
    simp only [fillHMS]
    omega
  have hsecond : dt.second = s % 60 := by
    rw [hdt]
    simp only [fillHMS]
    omega
  have hdate : Date.ofYearMonthDay dt.year dt.month dt.day = .ok ⟨j⟩ := by
    rw [hdt, Date.ofYearMonthDay]
    dsimp only
    rw [hj]
    rfl
  have hsum : s / 3600 * 3600 + s / 60 % 60 * 60 + s % 60 = s := by omega
  rw [fromUtcTime, hdate, hday, hepoch, hhour, hminute, hsecond]
  simp (disch := omega) only [ok_bind, signed_int_bind, signed_long_bind, hsum]
  exact signed_of (fits_long.mpr (by omega))

/-- Within the range, a second is what its date and time lead back to. -/
theorem breaks_back {t : Int} (ht : InCalendar t) :
    ∃ dt, BreakTime t = .ok dt ∧ fromUtcTime dt = .ok t := by
  obtain ⟨hl, hu⟩ := ht.bounds
  obtain ⟨ymd, hymd, hj⟩ := getJulianDayNumber_getYearMonthDay
    (j := t / 86400 + 2440588) (by omega) (by omega)
  refine ⟨{ fillHMS (t % 86400).toNat {} with
    year := ymd.year, month := ymd.month, day := ymd.day }, ?_, ?_⟩
  · rw [BreakTime_eq ht, hymd]
    rfl
  · rw [fromUtcTime_eq rfl hj (by omega) (by omega)]
    congr 1
    omega

end Libanet
