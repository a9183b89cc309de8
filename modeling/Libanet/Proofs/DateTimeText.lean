import Libanet.Base.Logging
import Libanet.Proofs.GregorianCalendar
import Libanet.Proofs.NumberText

/-!
# The text of a date and time

`"%4d%02d%02d %02d:%02d:%02d"` gives every part of a date two columns, and the
year four. As long as all of them keep to their columns the text can be read
back, so that different times have different texts; and it is 17 bytes long
exactly as long as the year has four digits. With the year 10000 everything
moves by a byte, and a digit comes where the blank was.

The times are those an `int32_t` of seconds can be away from the years 1970 to
9999, which is as far as a zone can move the clock of a log.
-/

namespace Libanet

/-! ## Columns -/

theorem length_magnitude {v : Int} {n : Nat} (h : v.natAbs < 10 ^ (n + 1)) :
    (magnitude v).length ≤ n + 1 := by
  rw [magnitude, List.length_reverse]
  exact length_convertLoop 10 zeroAt _ n h

theorem length_zeroPadded {v : Int} {n : Nat} (hl : 0 ≤ v) (h : v.natAbs < 10 ^ (n + 1)) :
    (zeroPadded (n + 1) v).length = n + 1 := by
  have := length_magnitude h
  have hsign : sign v = [] := if_neg (Int.not_lt.mpr hl)
  simp only [zeroPadded, hsign, List.nil_append, List.length_append, List.length_replicate,
    List.length_nil]
  omega

theorem length_blankPadded {v : Int} {n : Nat} (hl : 0 ≤ v) (h : v.natAbs < 10 ^ (n + 1)) :
    (blankPadded (n + 1) v).length = n + 1 := by
  have := length_magnitude h
  have hsign : sign v = [] := if_neg (Int.not_lt.mpr hl)
  simp only [blankPadded, hsign, List.nil_append, List.length_append, List.length_replicate]
  omega

theorem magnitude_eq (v : Int) : magnitude v = decimalDigits v.natAbs := by
  rw [magnitude, convertLoop_eq (Nat.lt_succ_self _), List.reverse_reverse]

theorem zeroPadded_eq (width : Nat) {v : Int} (h : 0 ≤ v) :
    ∃ k, zeroPadded width v = List.replicate k 0x30 ++ decimalDigits v.natAbs := by
  have hsign : sign v = [] := if_neg (Int.not_lt.mpr h)
  exact ⟨_, by rw [zeroPadded, hsign, magnitude_eq, List.nil_append]⟩

theorem blankPadded_eq (width : Nat) {v : Int} (h : 0 ≤ v) :
    blankPadded width v =
      List.replicate (width - (decimalDigits v.natAbs).length) 0x20 ++ decimalDigits v.natAbs := by
  have hsign : sign v = [] := if_neg (Int.not_lt.mpr h)
  rw [blankPadded, hsign, magnitude_eq, List.nil_append]

theorem decimalValue_zeroPadded (width : Nat) {v : Int} (h : 0 ≤ v) :
    decimalValue (zeroPadded width v) = v.natAbs := by
  obtain ⟨k, hk⟩ := zeroPadded_eq width h
  rw [hk, decimalValue_padded (by decide), decimalValue_decimalDigits]

theorem decimalValue_blankPadded (width : Nat) {v : Int} (h : 0 ≤ v) :
    decimalValue (blankPadded width v) = v.natAbs := by
  rw [blankPadded_eq width h, decimalValue_padded (by decide), decimalValue_decimalDigits]

theorem zeroPadded_inj {width : Nat} {v w : Int} (hv : 0 ≤ v) (hw : 0 ≤ w)
    (h : zeroPadded width v = zeroPadded width w) : v = w := by
  have hvalue := decimalValue_zeroPadded width hv
  rw [h, decimalValue_zeroPadded width hw] at hvalue
  omega

theorem blankPadded_inj {width : Nat} {v w : Int} (hv : 0 ≤ v) (hw : 0 ≤ w)
    (h : blankPadded width v = blankPadded width w) : v = w := by
  have hvalue := decimalValue_blankPadded width hv
  rw [h, decimalValue_blankPadded width hw] at hvalue
  omega

theorem isDigit_zeroPadded (width : Nat) {v : Int} (h : 0 ≤ v) :
    ∀ c ∈ zeroPadded width v, IsDigit c := by
  obtain ⟨k, hk⟩ := zeroPadded_eq width h
  rw [hk]
  intro c hc
  rcases List.mem_append.mp hc with hc | hc
  · rw [List.eq_of_mem_replicate hc]
    decide
  · exact isDigit_decimalDigits _ c hc

/-! ## The text -/

namespace DateTime

/-- The parts of a date that are no wider than their columns. -/
structure InColumns (dt : DateTime) : Prop where
  year : 0 ≤ dt.year ∧ dt.year ≤ 99999
  month : 0 ≤ dt.month ∧ dt.month ≤ 99
  day : 0 ≤ dt.day ∧ dt.day ≤ 99
  hour : 0 ≤ dt.hour ∧ dt.hour ≤ 99
  minute : 0 ≤ dt.minute ∧ dt.minute ≤ 99
  second : 0 ≤ dt.second ∧ dt.second ≤ 99

variable {dt dt' : DateTime}

theorem length_column {v : Int} (h : 0 ≤ v ∧ v ≤ 99) : (zeroPadded 2 v).length = 2 :=
  length_zeroPadded (n := 1) h.1 (by omega)

/-- The year has the columns it needs. -/
theorem InColumns.length_year (h : dt.InColumns) :
    (blankPadded 4 dt.year).length = if dt.year ≤ 9999 then 4 else 5 := by
  obtain ⟨hl, hu⟩ := h.year
  split
  · next hfour => exact length_blankPadded (n := 3) hl (by omega)
  · next hfive =>
      have hle : (decimalDigits dt.year.natAbs).length ≤ 5 :=
        (length_decimalDigits_le_iff (by decide)).mpr (by omega)
      have hgt : ¬ (decimalDigits dt.year.natAbs).length ≤ 4 := by
        rw [length_decimalDigits_le_iff (by decide)]
        omega
      rw [blankPadded_eq 4 hl, List.length_append, List.length_replicate]
      omega

theorem InColumns.length_formatDateTime (h : dt.InColumns) :
    (formatDateTime dt).length = if dt.year ≤ 9999 then 17 else 18 := by
  have hyear := h.length_year
  have hseparators : (ascii " ").length = 1 ∧ (ascii ":").length = 1 := ⟨rfl, rfl⟩
  simp only [formatDateTime, List.length_append, length_column h.month, length_column h.day,
    length_column h.hour, length_column h.minute, length_column h.second, hyear, hseparators]
  split <;> rfl

/-- Different times have different texts. -/
theorem InColumns.formatDateTime_inj (h : dt.InColumns) (h' : dt'.InColumns)
    (htext : formatDateTime dt = formatDateTime dt') : dt = dt' := by
  have hcolumn : ∀ {v w : Int}, 0 ≤ v ∧ v ≤ 99 → 0 ≤ w ∧ w ≤ 99 →
      (zeroPadded 2 v).length = (zeroPadded 2 w).length := by
    intro v w hv hw
    rw [length_column hv, length_column hw]
  -- the columns come off one by one, the last first
  obtain ⟨htext, hsecond⟩ := List.append_inj' htext (hcolumn h.second h'.second)
  obtain ⟨htext, -⟩ := List.append_inj' htext rfl
  obtain ⟨htext, hminute⟩ := List.append_inj' htext (hcolumn h.minute h'.minute)
  obtain ⟨htext, -⟩ := List.append_inj' htext rfl
  obtain ⟨htext, hhour⟩ := List.append_inj' htext (hcolumn h.hour h'.hour)
  obtain ⟨htext, -⟩ := List.append_inj' htext rfl
  obtain ⟨htext, hday⟩ := List.append_inj' htext (hcolumn h.day h'.day)
  obtain ⟨hyear, hmonth⟩ := List.append_inj' htext (hcolumn h.month h'.month)
  have hy := blankPadded_inj h.year.1 h'.year.1 hyear
  have hmo := zeroPadded_inj h.month.1 h'.month.1 hmonth
  have hd := zeroPadded_inj h.day.1 h'.day.1 hday
  have hh := zeroPadded_inj h.hour.1 h'.hour.1 hhour
  have hmi := zeroPadded_inj h.minute.1 h'.minute.1 hminute
  have hs := zeroPadded_inj h.second.1 h'.second.1 hsecond
  cases dt
  cases dt'
  simp only at hy hmo hd hh hmi hs
  rw [hy, hmo, hd, hh, hmi, hs]

/-- The date, which is what stands before the blank. -/
def dateText (dt : DateTime) : List UInt8 :=
  blankPadded 4 dt.year ++ zeroPadded 2 dt.month ++ zeroPadded 2 dt.day

theorem InColumns.length_dateText (h : dt.InColumns) :
    dt.dateText.length = if dt.year ≤ 9999 then 8 else 9 := by
  simp only [dateText, List.length_append, h.length_year, length_column h.month,
    length_column h.day]
  split <;> rfl

theorem formatDateTime_eq (dt : DateTime) :
    ∃ rest, formatDateTime dt = dt.dateText ++ 0x20 :: rest :=
  ⟨_, by
    simp only [formatDateTime, dateText, List.append_assoc]
    rfl⟩

/-- From the year 10000 on the date is digits throughout. -/
theorem InColumns.isDigit_dateText (h : dt.InColumns) (hyear : 9999 < dt.year) :
    ∀ c ∈ dt.dateText, IsDigit c := by
  have hwide : 4 - (decimalDigits dt.year.natAbs).length = 0 := by
    have hgt : ¬ (decimalDigits dt.year.natAbs).length ≤ 3 := by
      rw [length_decimalDigits_le_iff (by decide)]
      omega
    omega
  intro c hc
  rw [dateText, List.mem_append, List.mem_append] at hc
  rcases hc with (hc | hc) | hc
  · rw [blankPadded_eq 4 h.year.1, hwide] at hc
    exact isDigit_decimalDigits _ c hc
  · exact isDigit_zeroPadded 2 h.month.1 c hc
  · exact isDigit_zeroPadded 2 h.day.1 c hc

/-- What is cut off a text that has become too long is no time of a year with
four digits. -/
theorem InColumns.take_ne (h : dt.InColumns) (h' : dt'.InColumns) (hlong : 9999 < dt.year)
    (hyear : dt'.year ≤ 9999) : (formatDateTime dt).take 17 ≠ formatDateTime dt' := by
  intro htext
  obtain ⟨rest, heq⟩ := formatDateTime_eq dt
  obtain ⟨rest', heq'⟩ := formatDateTime_eq dt'
  have hlength := h.length_dateText
  have hlength' := h'.length_dateText
  rw [if_neg (by omega)] at hlength
  rw [if_pos hyear] at hlength'
  -- the byte behind the eighth
  have hblank : (formatDateTime dt')[8]? = some 0x20 := by
    rw [heq', List.getElem?_append_right (by omega), hlength']
    rfl
  have hdigit : ((formatDateTime dt).take 17)[8]? = dt.dateText[8]? := by
    rw [List.getElem?_take_of_lt (by decide), heq, List.getElem?_append_left (by omega)]
  rw [htext, hblank] at hdigit
  have hmem := List.mem_of_getElem? hdigit.symm
  exact absurd (h.isDigit_dateText hlong _ hmem) (by decide)

end DateTime

/-! ## Times that are shown -/

/-- The seconds of the years 1970 to 9999, on any clock. -/
def ShownSecond (t : Int) : Prop := -2147483648 ≤ t ∧ t < 253402300800 + 2147483648

theorem ShownSecond.handled {t : Int} (h : ShownSecond t) : HandledSecond t := by
  obtain ⟨hl, hu⟩ := h
  constructor <;> omega

/-- The year has four digits up to the end of 9999. -/
theorem ShownSecond.breakTime {t : Int} (h : ShownSecond t) :
    ∃ dt, BreakTime t = .ok dt ∧ dt.InColumns ∧ (dt.year ≤ 9999 ↔ t < 253402300800) := by
  obtain ⟨d, -, hday, hto⟩ := h.handled.date
  obtain ⟨hl, hu⟩ := h
  have hs : 0 ≤ t % 86400 ∧ t % 86400 < 86400 := by omega
  have hyear : 0 ≤ d.year ∧ d.year ≤ 99999 := by
    have hfirst : daysBeforeYear 0 = -366 := by decide
    have hlast : daysBeforeYear (99999 + 1) = 36523884 := by decide
    rw [GregorianDate.year_between_iff, hfirst, hlast]
    unfold GregorianDate.julianDay at hday
    omega
  have hfour : d.year ≤ 9999 ↔ t < 253402300800 := by
    have hfirst : daysBeforeYear 0 = -366 := by decide
    have hlast : daysBeforeYear (9999 + 1) = 3652059 := by decide
    have hbetween : 0 ≤ d.year ∧ d.year ≤ 9999 ↔ _ := GregorianDate.year_between_iff
    rw [hfirst, hlast] at hbetween
    unfold GregorianDate.julianDay at hday
    omega
  have hmonth := d.month_valid
  have hdays := d.day_valid
  have hlen := monthLength_bounds d.year d.month
  refine ⟨_, hto, ?_, hfour⟩
  constructor <;> dsimp only [GregorianDate.at] <;> omega

theorem BreakTime_inj {t t' : Int} (h : HandledSecond t) (h' : HandledSecond t')
    (heq : BreakTime t = BreakTime t') : t = t' := by
  obtain ⟨dt, hdt, hback⟩ := breaks_back h.inCalendar
  obtain ⟨dt', hdt', hback'⟩ := breaks_back h'.inCalendar
  rw [hdt, hdt'] at heq
  cases heq
  exact Except.ok.inj (hback.symm.trans hback')

end Libanet
