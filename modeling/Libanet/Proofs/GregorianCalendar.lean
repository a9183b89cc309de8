import Libanet.Lib.Gregorian
import Libanet.Proofs.Calendar

/-!
# The dates are those of the Gregorian calendar

The calendar itself counts its days from the year 1, the code from a day
before March of the year -4800. Both counts grow by one from a day to the
next, and a date is known by its number, so all that is left to show is that
`getJulianDayNumber` adds a constant and that `getYearMonthDay` answers with
dates that there are: the last day of a year that begins in March is a day
more than the others' only in a leap year.

From there on the years and the seconds are pushed through: what is shown of
the days of the years -4799 to 1000000 holds of their seconds.
-/

namespace Libanet

namespace GregorianDate

variable {d : GregorianDate}

/-- A date as the code has it. -/
def ymd (d : GregorianDate) : YearMonthDay := ⟨d.year, d.month, d.day⟩

theorem ymd_injective : Function.Injective ymd := by
  intro d d' h
  obtain ⟨hyear, hmonth, hday⟩ := YearMonthDay.mk.inj h
  exact GregorianDate.ext hyear hmonth hday

def julianDay (d : GregorianDate) : Int := d.dayNumber + 1721425

/-- The years the code is to handle. -/
def Handled (d : GregorianDate) : Prop := -4799 ≤ d.year ∧ d.year ≤ 1000000

theorem julianDay_next (d : GregorianDate) : d.next.julianDay = d.julianDay + 1 := by
  rw [julianDay, d.dayNumber_next, julianDay]
  omega

theorem julianDay_injective : Function.Injective julianDay := by
  intro d d' h
  unfold julianDay at h
  exact dayNumber_injective (by omega)

end GregorianDate

/-- The days of these years. -/
def HandledDay (j : Int) : Prop := -31738 ≤ j ∧ j ≤ 366963925

theorem GregorianDate.handled_iff {d : GregorianDate} : d.Handled ↔ HandledDay d.julianDay := by
  have hfirst : daysBeforeYear (-4799) = -1753164 := by decide
  have hlast : daysBeforeYear (1000000 + 1) = 365242500 := by decide
  rw [Handled, year_between_iff, hfirst, hlast, HandledDay, julianDay]
  omega

/-! ## From dates to days -/

/-- The date is in a year that begins in March of -4800 or later. -/
def GregorianDate.Counted (d : GregorianDate) : Prop :=
  0 ≤ d.year + 4800 - (14 - d.month) / 12 ∧ d.year ≤ 4000000

theorem GregorianDate.Handled.counted {d : GregorianDate} (h : d.Handled) : d.Counted := by
  obtain ⟨hfirst, hlast⟩ := h
  have hmonth := d.month_valid
  constructor <;> omega

theorem GregorianDate.getJulianDayNumber_eq {d : GregorianDate} (h : d.Counted) :
    getJulianDayNumber d.year d.month d.day = .ok d.julianDay := by
  obtain ⟨hfirst, hlast⟩ := h
  have hmonth := d.month_valid
  have hday := d.day_valid
  have hlen := monthLength_bounds d.year d.month
  rw [Libanet.getJulianDayNumber_eq hmonth (by omega) rfl rfl rfl hfirst (by omega), julianDay,
    dayNumber]
  congr 1
  by_cases hmarch : 3 ≤ d.month
  · have ha : (14 - d.month) / 12 = 0 := by omega
    have hsucc := daysBeforeYear_succ d.year
    rw [ha, daysBeforeMonth_march hmarch hmonth.2]
    unfold daysBeforeYear at hsucc ⊢
    omega
  · have ha : (14 - d.month) / 12 = 1 := by omega
    rw [ha, daysBeforeMonth_january hmonth.1 (by omega), daysBeforeYear]
    omega

/-! ## From days to dates -/

/-- Only a leap year has 366 days. -/
theorem DayParts.leap {a b c d e m : Int} (h : DayParts a b c d e m) (he : e = 365) :
    IsLeap (b * 100 + d - 4800 + 1) := by
  have hquarter : 1461 * d / 4 = 365 * d + d / 4 := by omega
  have hday := h.yearDay
  rw [hquarter] at hday
  have hlastDay : d = 99 → c = 36524 := by omega
  have hfour : d % 4 = 3 := by
    have hd := h.year
    omega
  clear hquarter hday
  have hcentury : d = 99 → b % 4 = 3 := by
    intro hlast
    have hb := h.century
    have hc := h.centuryDay
    have hquarter : b * 146097 / 4 = 36524 * b + b / 4 := by omega
    have hday := hlastDay hlast
    omega
  have bd := h.year_bounds
  refine ⟨by omega, ?_⟩
  by_cases hlastYear : d = 99
  · right
    have hfourHundred := hcentury hlastYear
    omega
  · left
    omega

/-- A day of the year that begins in March is a date of the calendar. -/
theorem DayParts.day_le {a b c d e m : Int} (h : DayParts a b c d e m) :
    e - (153 * m + 2) / 5 + 1 ≤
      monthLength (b * 100 + d - 4800 + m / 10) (m + 3 - 12 * (m / 10)) := by
  have bm := h.month_bounds
  have be := h.yearDay_bounds
  have hm := h.month
  by_cases hfebruary : m = 11
  · have hyear : m / 10 = 1 := by omega
    have hmonth : m + 3 - 12 * (m / 10) = 2 := by omega
    rw [hmonth, hyear, hfebruary, monthLength, if_pos rfl]
    split
    · omega
    · next hleap =>
        have hday : e ≠ 365 := fun he => hleap (h.leap he)
        omega
  · have hcases : m = 0 ∨ m = 1 ∨ m = 2 ∨ m = 3 ∨ m = 4 ∨ m = 5 ∨ m = 6 ∨ m = 7 ∨ m = 8 ∨
        m = 9 ∨ m = 10 := by omega
    rcases hcases with rfl | rfl | rfl | rfl | rfl | rfl | rfl | rfl | rfl | rfl | rfl <;>
      simp [monthLength] <;> omega

theorem getYearMonthDay_gregorian {j : Int} (hl : -32044 ≤ j) (hu : j ≤ 536838867) :
    ∃ d : GregorianDate, d.Counted ∧ getYearMonthDay j = .ok d.ymd := by
  obtain ⟨b, c, d, e, m, hparts, hymd⟩ := getYearMonthDay_parts hl hu
  have hb := hparts.century
  have hyear := hparts.year_bounds
  have hday := hparts.monthDay_bounds
  obtain ⟨hmonth, hmarch⟩ := hparts.calendarMonth
  refine ⟨⟨_, _, _, hmonth, by omega, hparts.day_le⟩, ?_, hymd⟩
  constructor <;> dsimp only <;> omega

/-- Every day is the day of its date. -/
theorem getYearMonthDay_julianDay {j : Int} (hl : -32044 ≤ j) (hu : j ≤ 536838867) :
    ∃ d : GregorianDate, d.Counted ∧ d.julianDay = j ∧ getYearMonthDay j = .ok d.ymd := by
  obtain ⟨d, hcounted, hd⟩ := getYearMonthDay_gregorian hl hu
  obtain ⟨ymd, hymd, hj⟩ := getJulianDayNumber_getYearMonthDay hl hu
  cases hd.symm.trans hymd
  have hday := d.getJulianDayNumber_eq hcounted
  cases hday.symm.trans hj
  exact ⟨d, hcounted, rfl, hd⟩

/-- Every date is the date of its day. -/
theorem GregorianDate.getYearMonthDay_eq {d : GregorianDate} (hl : -32044 ≤ d.julianDay)
    (hu : d.julianDay ≤ 536838867) : getYearMonthDay d.julianDay = .ok d.ymd := by
  obtain ⟨d', -, hday, hd'⟩ := getYearMonthDay_julianDay hl hu
  rwa [julianDay_injective hday] at hd'

/-- The dates of the years from -4799 to 1000000 and the days between their
first and last are the same: each leads to the other and back, and the day
after has the next date. Nothing overflows on the way. -/
theorem julianDay_gregorian :
    (∀ d : GregorianDate, d.Handled → ∃ j, HandledDay j ∧
      getJulianDayNumber d.year d.month d.day = .ok j ∧ getYearMonthDay j = .ok d.ymd) ∧
      ∀ j, HandledDay j → ∃ d : GregorianDate, d.Handled ∧ getYearMonthDay j = .ok d.ymd ∧
        getJulianDayNumber d.year d.month d.day = .ok j ∧
        getYearMonthDay (j + 1) = .ok d.next.ymd := by
  constructor
  · intro d hd
    obtain ⟨hl, hu⟩ := GregorianDate.handled_iff.mp hd
    exact ⟨d.julianDay, ⟨hl, hu⟩, d.getJulianDayNumber_eq hd.counted,
      d.getYearMonthDay_eq (by omega) (by omega)⟩
  · rintro j ⟨hl, hu⟩
    obtain ⟨d, hcounted, rfl, hymd⟩ := getYearMonthDay_julianDay (j := j) (by omega) (by omega)
    have hnext : getYearMonthDay d.next.julianDay = .ok d.next.ymd := by
      have hsucc := d.julianDay_next
      exact d.next.getYearMonthDay_eq (by omega) (by omega)
    rw [d.julianDay_next] at hnext
    exact ⟨d, GregorianDate.handled_iff.mpr ⟨hl, hu⟩, hymd, d.getJulianDayNumber_eq hcounted, hnext⟩

/-- The last day of February of the year -400, and the day after. -/
def leapDay : GregorianDate := ⟨-400, 2, 29, by decide, by decide⟩

theorem julianDay_gregorian_leapDay :
    getJulianDayNumber (-400) 2 29 = .ok 1575022 ∧ getYearMonthDay 1575022 = .ok ⟨-400, 2, 29⟩ ∧
      getYearMonthDay (1575022 + 1) = .ok ⟨-400, 3, 1⟩ := by
  obtain ⟨hdates, hdays⟩ := julianDay_gregorian
  obtain ⟨j, hj, hjulian, hymd⟩ := hdates leapDay (by constructor <;> decide)
  have hvalue : getJulianDayNumber leapDay.year leapDay.month leapDay.day = .ok 1575022 := rfl
  cases hvalue.symm.trans hjulian
  obtain ⟨d, -, hymd', -, hnext⟩ := hdays 1575022 hj
  have hleap : d = leapDay := GregorianDate.ymd_injective (Except.ok.inj (hymd'.symm.trans hymd))
  rw [hleap] at hnext
  exact ⟨hvalue, hymd, hnext⟩

/-! ## Seconds -/

/-- The seconds of these days. -/
def HandledSecond (t : Int) : Prop := HandledDay (t / 86400 + 2440588)

structure TimeOfDay (hour minute second : Int) : Prop where
  hour : 0 ≤ hour ∧ hour ≤ 23
  minute : 0 ≤ minute ∧ minute ≤ 59
  second : 0 ≤ second ∧ second ≤ 59

/-- A time of a day. -/
def GregorianDate.at (d : GregorianDate) (hour minute second : Int) : DateTime :=
  ⟨d.year, d.month, d.day, hour, minute, second⟩

theorem HandledSecond.inCalendar {t : Int} (h : HandledSecond t) : InCalendar t := by
  obtain ⟨hl, hu⟩ := h
  have hday : kSecondsPerDay = 86400 := rfl
  rw [InCalendar, hday]
  omega

theorem fillHMS_eq (d : GregorianDate) {s : Int} (hs : 0 ≤ s) :
    { fillHMS s.toNat {} with year := d.year, month := d.month, day := d.day } =
      d.at (s / 3600) (s / 60 % 60) (s % 60) := by
  unfold fillHMS GregorianDate.at
  simp only [DateTime.mk.injEq, true_and]
  omega

/-- The second of a date and a time of day. -/
theorem GregorianDate.fromUtcTime_at {d : GregorianDate} (h : d.Handled) {s : Int}
    (hs : 0 ≤ s ∧ s < 86400) :
    fromUtcTime (d.at (s / 3600) (s / 60 % 60) (s % 60)) =
      .ok ((d.julianDay - 2440588) * 86400 + s) := by
  obtain ⟨hl, hu⟩ := GregorianDate.handled_iff.mp h
  exact fromUtcTime_eq (fillHMS_eq d hs.1).symm (d.getJulianDayNumber_eq h.counted) hs (by omega)

/-- And the date and time of day of a second. -/
theorem GregorianDate.toUtcTime_at {d : GregorianDate} (h : d.Handled) {s : Int}
    (hs : 0 ≤ s ∧ s < 86400) :
    toUtcTime ((d.julianDay - 2440588) * 86400 + s) =
      .ok (d.at (s / 3600) (s / 60 % 60) (s % 60)) := by
  obtain ⟨hl, hu⟩ := GregorianDate.handled_iff.mp h
  have hday : ((d.julianDay - 2440588) * 86400 + s) / 86400 + 2440588 = d.julianDay := by omega
  have hsecond : ((d.julianDay - 2440588) * 86400 + s) % 86400 = s := by omega
  have ht : HandledSecond ((d.julianDay - 2440588) * 86400 + s) := by
    rw [HandledSecond, hday]
    exact ⟨hl, hu⟩
  rw [toUtcTime, BreakTime_eq ht.inCalendar, hday, hsecond,
    d.getYearMonthDay_eq (by omega) (by omega), ← fillHMS_eq d hs.1]
  rfl

/-- Every second has its date. -/
theorem HandledSecond.date {t : Int} (ht : HandledSecond t) :
    ∃ d : GregorianDate, d.Handled ∧ d.julianDay = t / 86400 + 2440588 ∧
      toUtcTime t = .ok (d.at (t % 86400 / 3600) (t % 86400 / 60 % 60) (t % 86400 % 60)) := by
  obtain ⟨d, -, hday, -⟩ := getYearMonthDay_julianDay (j := t / 86400 + 2440588)
    (by have := ht.1; omega) (by have := ht.2; omega)
  have hd : d.Handled := by
    rw [GregorianDate.handled_iff, hday]
    exact ht
  have hs : 0 ≤ t % 86400 ∧ t % 86400 < 86400 := by omega
  have hsum : (d.julianDay - 2440588) * 86400 + t % 86400 = t := by omega
  have hto := d.toUtcTime_at hd hs
  rw [hsum] at hto
  exact ⟨d, hd, hday, hto⟩

/-- The seconds of the years from -4799 to 1000000 are the dates and times of
day of these years: each leads to the other and back. -/
theorem utcTime_bijection :
    (∀ t, HandledSecond t → ∃ (d : GregorianDate) (hour minute second : Int),
      d.Handled ∧ TimeOfDay hour minute second ∧
        toUtcTime t = .ok (d.at hour minute second) ∧
        fromUtcTime (d.at hour minute second) = .ok t) ∧
      ∀ (d : GregorianDate) (hour minute second : Int), d.Handled →
        TimeOfDay hour minute second → ∃ t, HandledSecond t ∧
          fromUtcTime (d.at hour minute second) = .ok t ∧
          toUtcTime t = .ok (d.at hour minute second) := by
  constructor
  · intro t ht
    obtain ⟨d, hd, hday, hto⟩ := ht.date
    have hs : 0 ≤ t % 86400 ∧ t % 86400 < 86400 := by omega
    have hsum : (d.julianDay - 2440588) * 86400 + t % 86400 = t := by omega
    have hfrom := d.fromUtcTime_at hd hs
    rw [hsum] at hfrom
    refine ⟨d, _, _, _, hd, ?_, hto, hfrom⟩
    constructor <;> omega
  · rintro d hour minute second hd ⟨hhour, hminute, hsecond⟩
    obtain ⟨s, hs⟩ : ∃ s, s = hour * 3600 + minute * 60 + second := ⟨_, rfl⟩
    have hday : 0 ≤ s ∧ s < 86400 := by omega
    have h₁ : s / 3600 = hour := by omega
    have h₂ : s / 60 % 60 = minute := by omega
    have h₃ : s % 60 = second := by omega
    have hto := d.toUtcTime_at hd hday
    have hfrom := d.fromUtcTime_at hd hday
    rw [h₁, h₂, h₃] at hto hfrom
    refine ⟨_, ?_, hfrom, hto⟩
    have hback : ((d.julianDay - 2440588) * 86400 + s) / 86400 + 2440588 = d.julianDay := by omega
    rw [HandledSecond, hback]
    exact GregorianDate.handled_iff.mp hd

/-- The second before the epoch. -/
theorem utcTime_bijection_beforeEpoch :
    ∃ d : GregorianDate, toUtcTime (-1) = .ok (d.at 23 59 59) ∧
      fromUtcTime (d.at 23 59 59) = .ok (-1) := by
  obtain ⟨hseconds, -⟩ := utcTime_bijection
  obtain ⟨d, hour, minute, second, -, -, hto, hfrom⟩ := hseconds (-1) (by constructor <;> decide)
  have hvalue : toUtcTime (-1) = .ok ⟨1969, 12, 31, 23, 59, 59⟩ := rfl
  obtain ⟨-, -, -, rfl, rfl, rfl⟩ := DateTime.mk.inj (Except.ok.inj (hvalue.symm.trans hto))
  exact ⟨d, hto, hfrom⟩

end Libanet
