import Mathlib.Algebra.Order.BigOperators.Group.List
import Mathlib.Algebra.Order.Ring.Int
import Mathlib.Order.SuccPred.Basic

/-!
# The proleptic Gregorian calendar

Dates by year, month and day, for all years there ever were or will be: the
year before 1 is 0, and the leap years before 1582 are those the rule says. A
date is a value of `GregorianDate` only if its month has the day.

Days are counted in the order of the calendar. `dayNumber` is the day of a
date counted from the last day of the year 0, and it is one more the day
after. Since it also grows with the date, a date is known by its number.
-/

namespace Libanet

/-- Every fourth year, but of the centuries only every fourth. -/
def IsLeap (year : Int) : Prop := year % 4 = 0 ∧ (year % 100 ≠ 0 ∨ year % 400 = 0)

instance (year : Int) : Decidable (IsLeap year) := inferInstanceAs (Decidable (_ ∧ _))

def monthLength (year month : Int) : Int :=
  if month = 2 then if IsLeap year then 29 else 28
  else if month = 4 ∨ month = 6 ∨ month = 9 ∨ month = 11 then 30
  else 31

@[ext]
structure GregorianDate where
  year : Int
  month : Int
  day : Int
  month_valid : 1 ≤ month ∧ month ≤ 12
  day_valid : 1 ≤ day ∧ day ≤ monthLength year month
  deriving DecidableEq

theorem monthLength_bounds (year month : Int) :
    28 ≤ monthLength year month ∧ monthLength year month ≤ 31 := by
  unfold monthLength
  split
  · split <;> omega
  · split <;> omega

theorem one_le_monthLength (year month : Int) : 1 ≤ monthLength year month := by
  have h := monthLength_bounds year month
  omega

namespace GregorianDate

/-- The day after. -/
def next (d : GregorianDate) : GregorianDate :=
  if hday : d.day < monthLength d.year d.month then
    { d with
      day := d.day + 1
      day_valid := ⟨Int.le_add_one d.day_valid.1, hday⟩ }
  else if hmonth : d.month < 12 then
    { year := d.year
      month := d.month + 1
      day := 1
      month_valid := ⟨Int.le_add_one d.month_valid.1, hmonth⟩
      day_valid := ⟨Int.le_refl 1, one_le_monthLength _ _⟩ }
  else
    { year := d.year + 1
      month := 1
      day := 1
      month_valid := by decide
      day_valid := ⟨Int.le_refl 1, one_le_monthLength _ _⟩ }

end GregorianDate

/-! ## Counting days -/

/-- The days of the years from 1 to the one before. -/
def daysBeforeYear (year : Int) : Int :=
  365 * (year - 1) + (year - 1) / 4 - (year - 1) / 100 + (year - 1) / 400

/-- The days of the months before. -/
def daysBeforeMonth (year month : Int) : Int :=
  ((List.range (month - 1).toNat).map fun i : Nat => monthLength year (i + 1)).sum

def yearLength (year : Int) : Int := if IsLeap year then 366 else 365

theorem daysBeforeYear_succ (year : Int) :
    daysBeforeYear (year + 1) = daysBeforeYear year + yearLength year := by
  unfold daysBeforeYear yearLength
  split
  · next hleap =>
      obtain ⟨hfour, hcentury⟩ := hleap
      omega
  · next hleap =>
      rw [IsLeap, not_and_or, not_or] at hleap
      omega

theorem daysBeforeYear_mono {year year' : Int} (h : year ≤ year') :
    daysBeforeYear year ≤ daysBeforeYear year' := by
  unfold daysBeforeYear
  omega

theorem daysBeforeMonth_one (year : Int) : daysBeforeMonth year 1 = 0 := rfl

theorem daysBeforeMonth_succ (year : Int) {month : Int} (h : 1 ≤ month) :
    daysBeforeMonth year (month + 1) = daysBeforeMonth year month + monthLength year month := by
  have hsucc : (month + 1 - 1).toNat = (month - 1).toNat + 1 := by omega
  have hlast : ((month - 1).toNat : Int) + 1 = month := by omega
  rw [daysBeforeMonth, hsucc, List.range_succ, List.map_append, List.sum_append,
    List.map_singleton, List.sum_singleton, hlast, daysBeforeMonth]

theorem daysBeforeMonth_mono (year : Int) {month month' : Int} (h : 1 ≤ month)
    (hle : month ≤ month') : daysBeforeMonth year month ≤ daysBeforeMonth year month' := by
  induction month', hle using Int.leInduction with
  | base => exact Int.le_refl _
  | succ month' hle ih =>
      have hlen := one_le_monthLength year month'
      rw [daysBeforeMonth_succ year (Int.le_trans h hle)]
      omega

theorem daysBeforeMonth_thirteen (year : Int) : daysBeforeMonth year 13 = yearLength year := by
  unfold yearLength
  by_cases hleap : IsLeap year
  · simp [daysBeforeMonth, monthLength, hleap, List.range_succ]
  · simp [daysBeforeMonth, monthLength, hleap, List.range_succ]

/-- The months repeat every five from March on, with 153 days. -/
theorem daysBeforeMonth_march {year month : Int} (h : 3 ≤ month) (h' : month ≤ 12) :
    daysBeforeMonth year month =
      (153 * (month - 3) + 2) / 5 + (yearLength year - 306) := by
  have hcases : month = 3 ∨ month = 4 ∨ month = 5 ∨ month = 6 ∨ month = 7 ∨ month = 8 ∨
      month = 9 ∨ month = 10 ∨ month = 11 ∨ month = 12 := by omega
  unfold yearLength
  by_cases hleap : IsLeap year <;>
    rcases hcases with rfl | rfl | rfl | rfl | rfl | rfl | rfl | rfl | rfl | rfl <;>
    simp [daysBeforeMonth, monthLength, hleap, List.range_succ]

/-- January and February end the year that began in March. -/
theorem daysBeforeMonth_january {year month : Int} (h : 1 ≤ month) (h' : month ≤ 2) :
    daysBeforeMonth year month = (153 * (month + 9) + 2) / 5 - 306 := by
  have hcases : month = 1 ∨ month = 2 := by omega
  rcases hcases with rfl | rfl <;> simp [daysBeforeMonth, monthLength, List.range_succ]

namespace GregorianDate

def dayNumber (d : GregorianDate) : Int :=
  daysBeforeYear d.year + daysBeforeMonth d.year d.month + d.day

theorem dayNumber_next (d : GregorianDate) : d.next.dayNumber = d.dayNumber + 1 := by
  have hday := d.day_valid.2
  have hmonth := d.month_valid
  unfold next
  split
  · simp only [dayNumber]
    omega
  · next hlast =>
      have hend : d.day = monthLength d.year d.month := by omega
      have hsucc := daysBeforeMonth_succ d.year hmonth.1
      split
      · simp only [dayNumber, hsucc, hend]
        omega
      · next hdecember =>
          have htwelve : d.month = 12 := by omega
          have hyear : daysBeforeMonth d.year (12 + 1) = yearLength d.year :=
            daysBeforeMonth_thirteen d.year
          rw [htwelve] at hsucc
          simp only [dayNumber, daysBeforeYear_succ, daysBeforeMonth_one, hend, htwelve]
          omega

/-! ## Dates in order -/

theorem daysBeforeMonth_lt_dayNumber (d : GregorianDate) :
    daysBeforeYear d.year + daysBeforeMonth d.year d.month < d.dayNumber := by
  have hday := d.day_valid.1
  unfold dayNumber
  omega

/-- A date is before the end of its month. -/
theorem dayNumber_le_month (d : GregorianDate) :
    d.dayNumber ≤ daysBeforeYear d.year + daysBeforeMonth d.year (d.month + 1) := by
  have hday := d.day_valid.2
  rw [daysBeforeMonth_succ _ d.month_valid.1, dayNumber]
  omega

theorem daysBeforeYear_lt_dayNumber (d : GregorianDate) :
    daysBeforeYear d.year < d.dayNumber := by
  have hlt := d.daysBeforeMonth_lt_dayNumber
  have hmono := daysBeforeMonth_mono d.year (Int.le_refl 1) d.month_valid.1
  rw [daysBeforeMonth_one] at hmono
  omega

/-- And of its year. -/
theorem dayNumber_le_year (d : GregorianDate) : d.dayNumber ≤ daysBeforeYear (d.year + 1) := by
  have hle := d.dayNumber_le_month
  have hmonth := d.month_valid
  have hmono : daysBeforeMonth d.year (d.month + 1) ≤ daysBeforeMonth d.year 13 :=
    daysBeforeMonth_mono d.year (by omega) (by omega)
  rw [daysBeforeMonth_thirteen] at hmono
  rw [daysBeforeYear_succ]
  omega

theorem dayNumber_lt_of_year_lt {d d' : GregorianDate} (h : d.year < d'.year) :
    d.dayNumber < d'.dayNumber :=
  calc d.dayNumber ≤ daysBeforeYear (d.year + 1) := d.dayNumber_le_year
    _ ≤ daysBeforeYear d'.year := daysBeforeYear_mono h
    _ < d'.dayNumber := d'.daysBeforeYear_lt_dayNumber

theorem dayNumber_lt_of_month_lt {d d' : GregorianDate} (hyear : d.year = d'.year)
    (h : d.month < d'.month) : d.dayNumber < d'.dayNumber := by
  have hle := d.dayNumber_le_month
  have hlt := d'.daysBeforeMonth_lt_dayNumber
  have hmonth := d.month_valid
  have hmono : daysBeforeMonth d.year (d.month + 1) ≤ daysBeforeMonth d.year d'.month :=
    daysBeforeMonth_mono d.year (by omega) (by omega)
  rw [hyear] at hle hmono
  omega

/-- A date is known by its number. -/
theorem dayNumber_injective : Function.Injective dayNumber := by
  intro d d' h
  have hyear : d.year = d'.year := by
    rcases lt_trichotomy d.year d'.year with hlt | heq | hgt
    · exact absurd h (dayNumber_lt_of_year_lt hlt).ne
    · exact heq
    · exact absurd h (dayNumber_lt_of_year_lt hgt).ne'
  have hmonth : d.month = d'.month := by
    rcases lt_trichotomy d.month d'.month with hlt | heq | hgt
    · exact absurd h (dayNumber_lt_of_month_lt hyear hlt).ne
    · exact heq
    · exact absurd h (dayNumber_lt_of_month_lt hyear.symm hgt).ne'
  have hday : d.day = d'.day := by
    unfold dayNumber at h
    rw [hyear, hmonth] at h
    omega
  exact GregorianDate.ext hyear hmonth hday

/-- The dates of some years are the days between their first and last. -/
theorem year_between_iff {d : GregorianDate} {first last : Int} :
    first ≤ d.year ∧ d.year ≤ last ↔
      daysBeforeYear first < d.dayNumber ∧ d.dayNumber ≤ daysBeforeYear (last + 1) := by
  have hlt := d.daysBeforeYear_lt_dayNumber
  have hle := d.dayNumber_le_year
  constructor
  · rintro ⟨hfirst, hlast⟩
    have hmono := daysBeforeYear_mono hfirst
    have hmono' := daysBeforeYear_mono (show d.year + 1 ≤ last + 1 by omega)
    omega
  · rintro ⟨hfirst, hlast⟩
    constructor
    · by_contra hbefore
      have hmono := daysBeforeYear_mono (show d.year + 1 ≤ first by omega)
      omega
    · by_contra hafter
      have hmono := daysBeforeYear_mono (show last + 1 ≤ d.year by omega)
      omega

end GregorianDate

/-! ## The date of a day -/

/-- The year of a day. By the mean length of a year it is off by one at most. -/
def yearOfDay (n : Int) : Int :=
  let year := 400 * (n - 1) / 146097 + 1
  if n ≤ daysBeforeYear year then year - 1
  else if daysBeforeYear (year + 1) < n then year + 1
  else year

theorem yearOfDay_spec (n : Int) :
    daysBeforeYear (yearOfDay n) < n ∧ n ≤ daysBeforeYear (yearOfDay n + 1) := by
  unfold yearOfDay
  dsimp only
  split
  · next h =>
      unfold daysBeforeYear at *
      omega
  · next h =>
      split
      · next h' =>
          unfold daysBeforeYear at *
          omega
      · next h' => omega

/-- The last of the first `k` months that begins before a day of the year. -/
def monthOfDay (year day : Int) : Nat → Int
  | 0 => 1
  | k + 1 => if daysBeforeMonth year (k + 1) < day then k + 1 else monthOfDay year day k

theorem monthOfDay_spec {year day : Int} (hday : 0 < day) {k : Nat} (hpos : 0 < k)
    (hk : day ≤ daysBeforeMonth year (k + 1)) :
    (1 ≤ monthOfDay year day k ∧ monthOfDay year day k ≤ k) ∧
      daysBeforeMonth year (monthOfDay year day k) < day ∧
      day ≤ daysBeforeMonth year (monthOfDay year day k + 1) := by
  induction k with
  | zero => exact absurd hpos (Nat.lt_irrefl 0)
  | succ k ih =>
      rw [monthOfDay]
      split
      · next hlt => exact ⟨by omega, hlt, by exact_mod_cast hk⟩
      · next hge =>
          by_cases hzero : k = 0
          · subst hzero
            rw [Nat.cast_zero, Int.zero_add, daysBeforeMonth_one] at hge
            exact absurd hday hge
          · obtain ⟨hrange, hmonth⟩ := ih (by omega) (by omega)
            exact ⟨by omega, hmonth⟩

namespace GregorianDate

/-- What lies between the beginning of a year and its end has a month. -/
theorem month_of_day (n : Int) :
    (1 ≤ monthOfDay (yearOfDay n) (n - daysBeforeYear (yearOfDay n)) 12 ∧
      monthOfDay (yearOfDay n) (n - daysBeforeYear (yearOfDay n)) 12 ≤ (12 : Nat)) ∧
      daysBeforeMonth (yearOfDay n)
          (monthOfDay (yearOfDay n) (n - daysBeforeYear (yearOfDay n)) 12) <
        n - daysBeforeYear (yearOfDay n) ∧
      n - daysBeforeYear (yearOfDay n) ≤ daysBeforeMonth (yearOfDay n)
          (monthOfDay (yearOfDay n) (n - daysBeforeYear (yearOfDay n)) 12 + 1) := by
  obtain ⟨hlt, hle⟩ := yearOfDay_spec n
  rw [daysBeforeYear_succ] at hle
  refine monthOfDay_spec (by omega) (by decide) ?_
  show _ ≤ daysBeforeMonth _ 13
  rw [daysBeforeMonth_thirteen]
  omega

/-- The date of a day. -/
def ofDayNumber (n : Int) : GregorianDate where
  year := yearOfDay n
  month := monthOfDay (yearOfDay n) (n - daysBeforeYear (yearOfDay n)) 12
  day := n - daysBeforeYear (yearOfDay n) - daysBeforeMonth (yearOfDay n)
    (monthOfDay (yearOfDay n) (n - daysBeforeYear (yearOfDay n)) 12)
  month_valid := (month_of_day n).1
  day_valid := by
    obtain ⟨⟨hmonth, -⟩, hlt, hle⟩ := month_of_day n
    rw [daysBeforeMonth_succ _ hmonth] at hle
    omega

theorem dayNumber_ofDayNumber (n : Int) : (ofDayNumber n).dayNumber = n := by
  unfold ofDayNumber dayNumber
  dsimp only
  omega

example : (ofDayNumber 719163).year = 1970 ∧ (ofDayNumber 719163).month = 1 ∧
    (ofDayNumber 719163).day = 1 := by decide

end GregorianDate

end Libanet
