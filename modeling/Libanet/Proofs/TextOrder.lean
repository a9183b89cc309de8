import Libanet.Base.IsoString
import Libanet.Lib.SortedText
import Libanet.Proofs.LogFile
import Mathlib.Data.List.Nodup

/-!
# Dates and times that sort as texts

From the first day of the year 0 to the last of 9999 a date keeps to its
columns, and its text compares as the date does. A time of day has three
columns behind it. So the records of a log, the texts of `toIsoString` and the
names of log files come in the order of time wherever texts are sorted byte by
byte, as `ls` and `sort` do.

There is one proof for all of them. What differs is how the year is padded and
what stands between the columns.
-/

namespace Libanet

theorem bytes_lt_irrefl (l : List UInt8) : ¬ l < l := List.lt_irrefl l

/-! ## Columns -/

section Columns

variable {α : Type} {f : α → Int} {S : α → Prop}

theorem natAbs_lt_of_nonneg {v : Int} {n : Nat} (h : 0 ≤ v ∧ v < 10 ^ n) : v.natAbs < 10 ^ n := by
  have hcast : (v.natAbs : Int) = v := Int.natAbs_of_nonneg h.1
  have hlt := h.2
  rw [← hcast] at hlt
  exact_mod_cast hlt

/-- `"%02d"`, `"%04d"`. -/
theorem sorts_zeroPadded (n : Nat) (h : ∀ a, S a → 0 ≤ f a ∧ f a < 10 ^ (n + 1)) :
    Sorts (n + 1) f (fun a => zeroPadded (n + 1) (f a)) S := by
  have hdigits : Sorts (n + 1) (fun a => (f a).natAbs) (fun a => zeroPadded (n + 1) (f a)) S :=
    .ofDigits (fun a ha => length_zeroPadded (h a ha).1 (natAbs_lt_of_nonneg (h a ha)))
      (fun a ha => isDigit_zeroPadded _ (h a ha).1)
      fun a ha => decimalValue_zeroPadded _ (h a ha).1
  refine hdigits.rekey (fun a b ha hb hab => ?_) fun a b ha hb hab => ?_
  · have hpos := (h a ha).1
    have hpos' := (h b hb).1
    omega
  · have hpos := (h a ha).1
    have hpos' := (h b hb).1
    omega

theorem decimalDigits_mono {m n : Nat} (h : m ≤ n) :
    (decimalDigits m).length ≤ (decimalDigits n).length := by
  have hpos : 0 < (decimalDigits n).length :=
    List.length_pos_iff.mpr (decimalDigits_ne_nil n)
  rw [length_decimalDigits_le_iff hpos]
  exact Nat.lt_of_le_of_lt h ((length_decimalDigits_le_iff hpos).mp (Nat.le_refl _))

/-- The smaller number is shorter, or its digits are: a blank sorts before all
digits. -/
theorem blankPadded_lt {v w : Int} {n : Nat} (hv : 0 ≤ v) (hvw : v < w)
    (hw : w.natAbs < 10 ^ (n + 1)) : blankPadded (n + 1) v < blankPadded (n + 1) w := by
  have hle := decimalDigits_mono (show v.natAbs ≤ w.natAbs by omega)
  have hwidth : (decimalDigits w.natAbs).length ≤ n + 1 :=
    (length_decimalDigits_le_iff (Nat.succ_pos n)).mpr hw
  rw [blankPadded_eq _ hv, blankPadded_eq _ (by omega)]
  rcases Nat.lt_or_eq_of_le hle with hlt | heq
  · obtain ⟨k, hk⟩ : ∃ k, n + 1 - (decimalDigits v.natAbs).length =
        n + 1 - (decimalDigits w.natAbs).length + (k + 1) :=
      ⟨(decimalDigits w.natAbs).length - (decimalDigits v.natAbs).length - 1, by omega⟩
    rw [hk, List.replicate_add, List.append_assoc, append_lt_append_iff rfl]
    refine Or.inr ⟨rfl, ?_⟩
    obtain ⟨c, cs, hcs⟩ := List.exists_cons_of_ne_nil (decimalDigits_ne_nil w.natAbs)
    have hc : IsDigit c := isDigit_decimalDigits w.natAbs c (by rw [hcs]; exact .head cs)
    rw [hcs, List.replicate_succ, List.cons_append, List.cons_lt_cons_iff]
    exact Or.inl (UInt8.lt_iff_toNat_lt.mpr (Nat.lt_of_lt_of_le (by decide) hc.1))
  · rw [heq, append_lt_append_iff rfl]
    refine Or.inr ⟨rfl, (digits_compare (isDigit_decimalDigits _) (isDigit_decimalDigits _)
      heq).1.mpr ?_⟩
    rw [decimalValue_decimalDigits, decimalValue_decimalDigits]
    omega

/-- `"%4d"`. -/
theorem sorts_blankPadded (n : Nat) (h : ∀ a, S a → 0 ≤ f a ∧ f a < 10 ^ (n + 1)) :
    Sorts (n + 1) f (fun a => blankPadded (n + 1) (f a)) S :=
  .of_mono bytes_lt_irrefl (fun _ _ _ => List.lt_trans)
    (fun a ha => length_blankPadded (h a ha).1 (natAbs_lt_of_nonneg (h a ha)))
    (fun a b ha hb hab => blankPadded_lt (h a ha).1 hab (natAbs_lt_of_nonneg (h b hb)))
    fun a b _ _ hab => by rw [hab]

end Columns

/-! ## Dates -/

section Dates

variable {year : Int → List UInt8} {first : Int}

/-- The years that `year` prints with four bytes, and in their order. -/
abbrev YearText (year : Int → List UInt8) (first : Int) : Prop :=
  Sorts 4 (fun y : Int => y) year (fun y => first ≤ y ∧ y ≤ 9999)

theorem yearText_zeroPadded : YearText (zeroPadded 4) 0 :=
  sorts_zeroPadded 3 fun y hy => by omega

theorem yearText_blankPadded : YearText (blankPadded 4) 0 :=
  sorts_blankPadded 3 fun y hy => by omega

/-- Year, month and day, with something between them. -/
def dateText (year : Int → List UInt8) (sep : List UInt8) (d : GregorianDate) : List UInt8 :=
  year d.year ++ sep ++ zeroPadded 2 d.month ++ sep ++ zeroPadded 2 d.day

theorem sorts_dateText (hyear : YearText year first) (sep : List UInt8) :
    Sorts (4 + sep.length + 2 + sep.length + 2) GregorianDate.dayNumber (dateText year sep)
      (fun d => first ≤ d.year ∧ d.year ≤ 9999) := by
  have hmonth : Sorts 2 GregorianDate.month (fun d => zeroPadded 2 d.month)
      (fun d => first ≤ d.year ∧ d.year ≤ 9999) := sorts_zeroPadded 1 fun d _ => by
    have hvalid := d.month_valid
    omega
  have hday : Sorts 2 GregorianDate.day (fun d => zeroPadded 2 d.day)
      (fun d => first ≤ d.year ∧ d.year ≤ 9999) := sorts_zeroPadded 1 fun d _ => by
    have hvalid := d.day_valid
    have hbound := monthLength_bounds d.year d.month
    omega
  have hcolumns := ((((hyear.comp GregorianDate.year).followed sep bytes_lt_irrefl).append
    hmonth).followed sep bytes_lt_irrefl).append hday
  refine hcolumns.rekey (fun d d' _ _ hlt => ?_) fun d d' _ _ heq => ?_
  · rw [Prod.Lex.toLex_lt_toLex] at hlt
    rcases hlt with hlt | ⟨heq, hday⟩
    · rw [Prod.Lex.toLex_lt_toLex] at hlt
      rcases hlt with hyear | ⟨hyear, hmonth⟩
      · exact GregorianDate.dayNumber_lt_of_year_lt hyear
      · exact GregorianDate.dayNumber_lt_of_month_lt hyear hmonth
    · obtain ⟨hyear, hmonth⟩ := Prod.mk.inj (toLex.injective heq)
      unfold GregorianDate.dayNumber
      rw [hyear, hmonth]
      omega
  · obtain ⟨hyearMonth, hday⟩ := Prod.mk.inj (toLex.injective heq)
    obtain ⟨hyear, hmonth⟩ := Prod.mk.inj (toLex.injective hyearMonth)
    rw [GregorianDate.ext hyear hmonth hday]

end Dates

/-! ## Seconds -/

/-- The time of day, with something between its parts. -/
def clockText (sep : List UInt8) (t : Int) : List UInt8 :=
  zeroPadded 2 (t % 86400 / 3600) ++ sep ++ zeroPadded 2 (t % 86400 / 60 % 60) ++ sep ++
    zeroPadded 2 (t % 86400 % 60)

theorem sorts_clockText (sep : List UInt8) (S : Int → Prop) :
    Sorts (2 + sep.length + 2 + sep.length + 2) (fun t => t % 86400) (clockText sep) S := by
  have hhour : Sorts 2 (fun t : Int => t % 86400 / 3600)
      (fun t => zeroPadded 2 (t % 86400 / 3600)) S := sorts_zeroPadded 1 fun t _ => by omega
  have hminute : Sorts 2 (fun t : Int => t % 86400 / 60 % 60)
      (fun t => zeroPadded 2 (t % 86400 / 60 % 60)) S := sorts_zeroPadded 1 fun t _ => by omega
  have hsecond : Sorts 2 (fun t : Int => t % 86400 % 60)
      (fun t => zeroPadded 2 (t % 86400 % 60)) S := sorts_zeroPadded 1 fun t _ => by omega
  have hcolumns := (((hhour.followed sep bytes_lt_irrefl).append hminute).followed sep
    bytes_lt_irrefl).append hsecond
  refine hcolumns.rekey (fun t u _ _ hlt => ?_) fun t u _ _ heq => ?_
  · simp only [Prod.Lex.toLex_lt_toLex, EmbeddingLike.apply_eq_iff_eq, Prod.mk.injEq] at hlt
    omega
  · simp only [EmbeddingLike.apply_eq_iff_eq, Prod.mk.injEq] at heq
    omega

/-- The day of a second. -/
def dateOf (t : Int) : GregorianDate := GregorianDate.ofDayNumber (t / 86400 + 719163)

/-- The date of a second, and the time of day behind it. -/
def secondText (year : Int → List UInt8) (dsep gap tsep : List UInt8) (t : Int) : List UInt8 :=
  dateText year dsep (dateOf t) ++ gap ++ clockText tsep t

theorem sorts_secondText {year : Int → List UInt8} {first : Int} (hyear : YearText year first)
    (dsep gap tsep : List UInt8) :
    Sorts (4 + dsep.length + 2 + dsep.length + 2 + gap.length +
        (2 + tsep.length + 2 + tsep.length + 2)) (fun t => t) (secondText year dsep gap tsep)
      (fun t => first ≤ (dateOf t).year ∧ (dateOf t).year ≤ 9999) := by
  have hcolumns := (((sorts_dateText hyear dsep).comp dateOf).followed gap bytes_lt_irrefl).append
    (sorts_clockText tsep _)
  have hnumber (t : Int) : (dateOf t).dayNumber = t / 86400 + 719163 :=
    GregorianDate.dayNumber_ofDayNumber _
  refine hcolumns.rekey (fun t u _ _ hlt => ?_) fun t u _ _ heq => ?_
  · simp only [Prod.Lex.toLex_lt_toLex, hnumber] at hlt
    omega
  · simp only [EmbeddingLike.apply_eq_iff_eq, Prod.mk.injEq, hnumber] at heq
    omega

/-- A second of the years 0 to 9999. -/
def FourDigits (t : Int) : Prop := -62167219200 ≤ t ∧ t < 253402300800

theorem year_dateOf {first t : Int} (hl : (daysBeforeYear first - 719162) * 86400 ≤ t)
    (hu : t < 253402300800) : first ≤ (dateOf t).year ∧ (dateOf t).year ≤ 9999 := by
  have hlast : daysBeforeYear (9999 + 1) = 3652059 := by decide
  rw [GregorianDate.year_between_iff, hlast, dateOf, GregorianDate.dayNumber_ofDayNumber]
  omega

theorem FourDigits.year {t : Int} (h : FourDigits t) :
    0 ≤ (dateOf t).year ∧ (dateOf t).year ≤ 9999 :=
  year_dateOf h.1 h.2

theorem FourDigits.handled {t : Int} (h : FourDigits t) : HandledSecond t := by
  obtain ⟨hl, hu⟩ := h
  constructor <;> omega

/-- `BreakTime` agrees with the calendar. -/
theorem toUtcTime_eq_gmtime_r {t : Int} (h : HandledSecond t) :
    toUtcTime t = .ok (gmtime_r t) := by
  obtain ⟨d, -, hday, hto⟩ := h.date
  have hnumber : d.dayNumber = (dateOf t).dayNumber := by
    rw [GregorianDate.julianDay] at hday
    rw [dateOf, GregorianDate.dayNumber_ofDayNumber]
    omega
  rw [hto, GregorianDate.dayNumber_injective hnumber]
  rfl

/-! ## What the code prints -/

/-- A text that is shorter than the array is printed whole. -/
theorem printInto_of_length {size : Nat} {text : List UInt8} (h : text.length < size) :
    printInto size text = text := List.take_of_length_le (by omega)

theorem Date.toIsoString_eq {d : Date} {g : GregorianDate}
    (hymd : d.yearMonthDay = .ok g.ymd) (hyear : 0 ≤ g.year ∧ g.year ≤ 9999) :
    d.toIsoString = .ok (dateText (blankPadded 4) (ascii "-") g) := by
  have hlength := (sorts_dateText yearText_blankPadded (ascii "-")).length g hyear
  have hshort : (dateText (blankPadded 4) (ascii "-") g).length < 32 := by
    rw [hlength]
    decide
  unfold Date.toIsoString
  rw [hymd]
  exact congrArg Except.ok (printInto_of_length hshort)

theorem toIsoString_gmtime_r {t : Int} (h : FourDigits t) :
    (gmtime_r t).toIsoString =
      secondText (zeroPadded 4) (ascii "-") (ascii " ") (ascii ":") t := by
  have hlength := (sorts_secondText yearText_zeroPadded (ascii "-") (ascii " ")
    (ascii ":")).length t h.year
  have htext : secondText (zeroPadded 4) (ascii "-") (ascii " ") (ascii ":") t =
      zeroPadded 4 (gmtime_r t).year ++ ascii "-" ++ zeroPadded 2 (gmtime_r t).month ++
        ascii "-" ++ zeroPadded 2 (gmtime_r t).day ++ ascii " " ++
        zeroPadded 2 (gmtime_r t).hour ++ ascii ":" ++ zeroPadded 2 (gmtime_r t).minute ++
        ascii ":" ++ zeroPadded 2 (gmtime_r t).second := by
    simp only [secondText, dateText, clockText, dateOf, gmtime_r, List.append_assoc]
  rw [DateTime.toIsoString, ← htext]
  refine printInto_of_length ?_
  rw [hlength]
  decide

theorem formatDateTime_gmtime_r (t : Int) :
    formatDateTime (gmtime_r t) = secondText (blankPadded 4) [] (ascii " ") (ascii ":") t := by
  simp only [formatDateTime, secondText, dateText, clockText, dateOf, gmtime_r,
    List.append_assoc, List.nil_append]

/-- A day of the years 0 to 9999. -/
def Date.FourDigits (d : Date) : Prop := 1721060 ≤ d.julianDayNumber ∧ d.julianDayNumber ≤ 5373484

theorem Date.FourDigits.date {d : Date} (h : d.FourDigits) : ∃ g : GregorianDate,
    g.dayNumber = d.julianDayNumber - 1721425 ∧
      d.toIsoString = .ok (dateText (blankPadded 4) (ascii "-") g) ∧
      0 ≤ g.year ∧ g.year ≤ 9999 := by
  have hfirst : daysBeforeYear 0 = -366 := by decide
  have hlast : daysBeforeYear (9999 + 1) = 3652059 := by decide
  obtain ⟨hl, hu⟩ := h
  obtain ⟨g, -, hday, hymd⟩ := getYearMonthDay_julianDay (j := d.julianDayNumber) (by omega)
    (by omega)
  rw [GregorianDate.julianDay] at hday
  have hyear : 0 ≤ g.year ∧ g.year ≤ 9999 := by
    rw [GregorianDate.year_between_iff, hfirst, hlast]
    omega
  exact ⟨g, by omega, Date.toIsoString_eq hymd hyear, hyear⟩

/-- From the year 0 to 9999 dates and times come in the order of their texts:
those of `Date::toIsoString`, of `DateTime::toIsoString`, and of the time in a
log record. -/
theorem texts_sort_by_time :
    (∀ d e : Date, d.FourDigits → e.FourDigits → ∃ x y, d.toIsoString = .ok x ∧
      e.toIsoString = .ok y ∧ x.length = 10 ∧ (x < y ↔ d.before e) ∧ (x = y ↔ d = e)) ∧
    ∀ t u, FourDigits t → FourDigits u → ∃ dt du, toUtcTime t = .ok dt ∧ toUtcTime u = .ok du ∧
      (dt.toIsoString.length = 19 ∧ (dt.toIsoString < du.toIsoString ↔ t < u) ∧
        (dt.toIsoString = du.toIsoString ↔ t = u)) ∧
      (formatDateTime dt).length = 17 ∧ (formatDateTime dt < formatDateTime du ↔ t < u) ∧
        (formatDateTime dt = formatDateTime du ↔ t = u) := by
  constructor
  · intro d e hd he
    obtain ⟨g, hday, hx, hyear⟩ := hd.date
    obtain ⟨k, hday', hy, hyear'⟩ := he.date
    have hsorts := sorts_dateText yearText_blankPadded (ascii "-")
    refine ⟨_, _, hx, hy, hsorts.length g hyear, ?_, ?_⟩
    · rw [hsorts.lt_iff g k hyear hyear', hday, hday', Date.before]
      omega
    · rw [hsorts.eq_iff g k hyear hyear', hday, hday', Date.mk.injEq]
      omega
  · intro t u ht hu
    refine ⟨_, _, toUtcTime_eq_gmtime_r ht.handled, toUtcTime_eq_gmtime_r hu.handled, ?_, ?_⟩
    · have hsorts := sorts_secondText yearText_zeroPadded (ascii "-") (ascii " ") (ascii ":")
      rw [toIsoString_gmtime_r ht, toIsoString_gmtime_r hu]
      exact ⟨hsorts.length t ht.year, hsorts.lt_iff t u ht.year hu.year,
        hsorts.eq_iff t u ht.year hu.year⟩
    · have hsorts := sorts_secondText yearText_blankPadded [] (ascii " ") (ascii ":")
      rw [formatDateTime_gmtime_r, formatDateTime_gmtime_r]
      exact ⟨hsorts.length t ht.year, hsorts.lt_iff t u ht.year hu.year,
        hsorts.eq_iff t u ht.year hu.year⟩

/-- The end of the year 999, whose text has a blank in front. -/
theorem texts_sort_by_time_yearEnd :
    (∃ x y, (⟨2086302⟩ : Date).toIsoString = .ok x ∧ (⟨2086303⟩ : Date).toIsoString = .ok y ∧
      x < y) ∧ ∃ dt du, toUtcTime (-30610224001) = .ok dt ∧ toUtcTime (-30610224000) = .ok du ∧
        formatDateTime dt < formatDateTime du := by
  obtain ⟨hdates, htimes⟩ := texts_sort_by_time
  obtain ⟨x, y, hx, hy, -, hlt, -⟩ := hdates ⟨2086302⟩ ⟨2086303⟩ (by constructor <;> decide)
    (by constructor <;> decide)
  obtain ⟨dt, du, ht, hu, -, -, hlt', -⟩ := htimes (-30610224001) (-30610224000)
    (by constructor <;> decide) (by constructor <;> decide)
  exact ⟨⟨x, y, hx, hy, hlt.mpr (by decide : (2086302 : Int) < 2086303)⟩,
    dt, du, ht, hu, hlt'.mpr (by decide)⟩

/-! ## Log files in the order of their names -/

namespace LogFile

variable {basename : List UInt8} {rollSize flushInterval checkEveryN limit : Int} {env : NameEnv}
  {s₀ s : LogFile} {lines : List (List UInt8)}

theorem Holds.flatten (h : Holds lines s) :
    (s.files.map OpenedFile.bytes).flatten = lines.flatten := by
  obtain ⟨before, current, hclosed, hcurrent, rfl⟩ := h
  obtain ⟨f, hf, hbytes⟩ := Option.map_eq_some_iff.mp hcurrent
  rw [files_of_file hf, List.map_append, hclosed, List.map_singleton, hbytes,
    List.flatten_append, List.flatten_append, List.flatten_flatten, List.flatten_singleton]

end LogFile

end Libanet
