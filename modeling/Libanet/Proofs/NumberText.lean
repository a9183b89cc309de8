import Libanet.Base.LogStreamMemory
import Libanet.Lib.Decimal

/-!
# Numbers are written in decimal, but for the sign

`convert` takes the digits off the low end of the number, with C's remainder,
which is negative for a negative number, and looks each up in a table that
has every digit twice, one way to either side of zero. So the digits are
those of the absolute value, and the number need not be negated, which the
most negative one could not be. They come out in reverse, and are reversed.

The sign is `_`, and a text with a `_` in it is nobody's decimal notation. So
`convert` keeps its word exactly for the numbers that have no sign. That
different numbers have different texts is true of all of them.

The bytes are followed into the array: one function writes them one after
another, so an array with room for them all is what it takes.
-/

namespace Libanet

/-! ## The digits -/

/-- The table, to either side of its zero. -/
theorem zeroAt_eq {lsd : Int} (hl : -10 < lsd) (hu : lsd < 10) :
    zeroAt lsd = digitByte lsd.natAbs := by
  have htable : ∀ n : Fin 19, digits.getD n 0 = digitByte ((n : Int) - 9).natAbs := by decide
  have hn := htable ⟨(9 + lsd).toNat, by omega⟩
  have hback : (((9 + lsd).toNat : Nat) : Int) - 9 = lsd := by omega
  simp only [hback] at hn
  exact hn

/-- The lowest digit first. The induction is on the turns of the loop, each of
which takes off the digit `Nat.repr` appends last. -/
theorem convertLoop_eq {fuel : Nat} {v : Int} (h : v.natAbs < fuel) :
    convertLoop 10 zeroAt fuel v = (decimalDigits v.natAbs).reverse := by
  induction fuel generalizing v with
  | zero => exact absurd h (Nat.not_lt_zero _)
  | succ fuel ih =>
      have hdigit : zeroAt (v.tmod 10) = digitByte (v.natAbs % 10) := by
        have habs : (v.tmod 10).natAbs = v.natAbs % 10 := Int.natAbs_tmod v 10
        rw [zeroAt_eq (Int.lt_tmod_of_pos v (by decide)) (Int.tmod_lt_of_pos v (by decide)), habs]
      have hrest : (v.tdiv 10).natAbs = v.natAbs / 10 := Int.natAbs_tdiv v 10
      simp only [convertLoop, hdigit]
      by_cases hlt : v.natAbs < 10
      · have hlast : v.tdiv 10 = 0 := by
          rw [← Int.natAbs_eq_zero, hrest]
          exact Nat.div_eq_of_lt hlt
        rw [if_neg (not_not.mpr hlast), decimalDigits_of_lt hlt, Nat.mod_eq_of_lt hlt]
        rfl
      · have hmore : v.tdiv 10 ≠ 0 := by
          rw [← Int.natAbs_ne_zero, hrest]
          omega
        rw [if_pos hmore, ih (by omega), hrest, decimalDigits_of_ge (Nat.not_lt.mp hlt),
          List.reverse_append]
        rfl

theorem convert_eq (v : Int) :
    convert v = (if v < 0 then ascii "_" else []) ++ decimalDigits v.natAbs := by
  rw [convert, convertLoop_eq (Nat.lt_succ_self _)]
  split
  · rw [List.reverse_append, List.reverse_reverse]
    rfl
  · rw [List.reverse_reverse, List.nil_append]

theorem ascii_toString (v : Int) : ascii (toString v) = decimalText v := toList_toString v

/-- The text is that of the number, as long as that has no sign. -/
theorem convert_eq_iff (v : Int) : convert v = ascii (toString v) ↔ 0 ≤ v := by
  rw [convert_eq, ascii_toString, decimalText]
  by_cases hneg : v < 0
  · rw [if_pos hneg, if_pos hneg]
    refine iff_of_false ?_ (Int.not_le.mpr hneg)
    intro h
    have hsign : (0x5f : UInt8) = 0x2d := (List.cons_eq_cons.mp h).1
    exact absurd hsign (by decide)
  · rw [if_neg hneg, if_neg hneg]
    exact iff_of_true rfl (Int.not_lt.mp hneg)

theorem convert_injective : Function.Injective convert := by
  intro v w h
  have hunderscore : ∀ n, ∀ text, decimalDigits n ≠ ascii "_" ++ text := by
    intro n text heq
    have hdigit := isDigit_decimalDigits n 0x5f (by rw [heq]; exact List.mem_cons_self)
    exact absurd hdigit (by decide)
  have hvalue : ∀ {n m}, decimalDigits n = decimalDigits m → n = m := by
    intro n m heq
    rw [← decimalValue_decimalDigits n, heq, decimalValue_decimalDigits]
  rw [convert_eq, convert_eq] at h
  by_cases hv : v < 0
  · by_cases hw : w < 0
    · rw [if_pos hv, if_pos hw] at h
      have habs := hvalue (List.append_cancel_left h)
      omega
    · rw [if_pos hv, if_neg hw] at h
      exact absurd h.symm (hunderscore _ _)
  · by_cases hw : w < 0
    · rw [if_neg hv, if_pos hw] at h
      exact absurd h (hunderscore _ _)
    · rw [if_neg hv, if_neg hw] at h
      have habs := hvalue h
      omega

/-! ## The bytes -/

/-- The loop writes the digits one after another. -/
theorem convertDigits_eq (base : Int) (digit : Int → UInt8) (fuel : Nat) (i : Int) (p : Nat)
    (mem : List UInt8) :
    convertDigits base digit fuel i p mem = (do
      let mem ← writeCells .outOfBounds p (convertLoop base digit fuel i) mem
      return (p + (convertLoop base digit fuel i).length, mem)) := by
  induction fuel generalizing i p mem with
  | zero => rfl
  | succ fuel ih =>
      simp only [convertDigits, convertLoop, writeCells]
      cases writeCell Fault.outOfBounds p (digit (i.tmod base)) mem with
      | error e => rfl
      | ok mem' =>
          by_cases hmore : i.tdiv base = 0
          · simp only [hmore, ne_eq, not_true_eq_false, if_false]
            rfl
          · have hindex : ∀ n, p + 1 + n = p + (n + 1) := by
              intro n
              omega
            simp only [ok_bind, ne_eq, hmore, not_false_eq_true, if_true, ih, hindex,
              List.length_cons]

/-- Text is written with a NUL behind it, and reversed. -/
def writeReversed (buf : Nat) (text mem : List UInt8) : Except Fault (Nat × List UInt8) := do
  let mem ← writeCells .outOfBounds buf (text ++ [0]) mem
  return (text.length, reverseCells buf (buf + text.length) mem)

theorem writeReversed_eq {buf : Nat} {text mem : List UInt8}
    (h : buf + text.length + 1 ≤ mem.length) :
    writeReversed buf text mem =
      .ok (text.length, overwriteAt buf (text.reverse ++ [0]) mem) := by
  have hroom : buf + (text ++ [0]).length ≤ mem.length := by
    rw [List.length_append, List.length_singleton]
    omega
  rw [writeReversed, writeCells_eq hroom, ok_bind, reverseCells_overwriteAt (by omega)]
  rfl

/-- The NUL behind what has been written. -/
theorem writeCells_nul (buf : Nat) (text mem : List UInt8) :
    (do
      let mem ← writeCells .outOfBounds buf text mem
      let mem ← writeCell .outOfBounds (buf + text.length) 0 mem
      return (buf + text.length - buf, reverseCells buf (buf + text.length) mem)) =
      writeReversed buf text mem := by
  rw [writeReversed, writeCells_append, Nat.add_sub_cancel_left]
  cases writeCells Fault.outOfBounds buf text mem with
  | error e => rfl
  | ok mem' =>
      simp only [ok_bind, writeCells_singleton]

theorem convertAt_eq_writeReversed (buf : Nat) (v : Int) (mem : List UInt8) :
    convertAt buf v mem = writeReversed buf (convert v).reverse mem := by
  rw [convertAt, convertDigits_eq, convert]
  by_cases hneg : v < 0
  · rw [if_pos hneg, List.reverse_reverse, ← writeCells_nul, writeCells_append]
    simp only [hneg, if_true]
    cases writeCells Fault.outOfBounds buf (convertLoop 10 zeroAt (v.natAbs + 1) v) mem with
    | error e => rfl
    | ok mem' =>
        have hsign : ascii "_" = [0x5f] := rfl
        simp only [ok_bind, pure_bind, hsign, writeCells_singleton, List.length_append,
          List.length_singleton, ← Nat.add_assoc]
  · rw [if_neg hneg, List.reverse_reverse, ← writeCells_nul]
    simp only [hneg, if_false]
    cases writeCells Fault.outOfBounds buf (convertLoop 10 zeroAt (v.natAbs + 1) v) mem with
    | error e => rfl
    | ok mem' => rfl

theorem convertHexAt_eq_writeReversed (buf v : Nat) (mem : List UInt8) :
    convertHexAt buf v mem = writeReversed buf (convertHex v).reverse mem := by
  rw [convertHexAt, convertDigits_eq, convertHex, List.reverse_reverse, ← writeCells_nul]
  cases writeCells Fault.outOfBounds buf (convertLoop 16 hexAt (v + 1) v) mem with
  | error e => rfl
  | ok mem' => rfl

/-- What a conversion leaves in an array that has room for the text and the
NUL. -/
theorem convertAt_eq {buf : Nat} {v : Int} {mem : List UInt8}
    (h : buf + (convert v).length + 1 ≤ mem.length) :
    convertAt buf v mem =
      .ok ((convert v).length, overwriteAt buf (convert v ++ [0]) mem) := by
  rw [convertAt_eq_writeReversed, writeReversed_eq (by rwa [List.length_reverse]),
    List.length_reverse, List.reverse_reverse]

theorem convertHexAt_eq {buf v : Nat} {mem : List UInt8}
    (h : buf + (convertHex v).length + 1 ≤ mem.length) :
    convertHexAt buf v mem =
      .ok ((convertHex v).length, overwriteAt buf (convertHex v ++ [0]) mem) := by
  rw [convertHexAt_eq_writeReversed, writeReversed_eq (by rwa [List.length_reverse]),
    List.length_reverse, List.reverse_reverse]

/-! ## Decimal notation -/

/-- A value of one of the integer types, 32 or 64 bits wide. -/
def IntegerValue (v : Int) : Prop := -2 ^ 63 ≤ v ∧ v < 2 ^ 64

/-- `convert(buf, v)` writes the decimal text of `v` and a NUL, 21 bytes at
most, and answers with the length of the text; the text can be read back, and
no other number has it. -/
def WritesDecimal (buf : Nat) (v : Int) (mem : List UInt8) : Prop :=
  ∃ text, convertAt buf v mem = .ok (text.length, overwriteAt buf (text ++ [0]) mem) ∧
    text = ascii (toString v) ∧ text.length + 1 ≤ 21 ∧ parseDecimal text = some v ∧
    ∀ w, IntegerValue w → convertAt buf w mem = convertAt buf v mem → w = v

theorem IntegerValue.length_convert {v : Int} (h : IntegerValue v) :
    (convert v).length + 1 ≤ 21 := by
  obtain ⟨hl, hu⟩ := h
  rw [convert_eq, List.length_append]
  by_cases hneg : v < 0
  · have hdigits := (length_decimalDigits_le_iff (n := v.natAbs) (k := 19) (by decide)).mpr
      (by omega)
    rw [if_pos hneg]
    show 1 + (decimalDigits v.natAbs).length + 1 ≤ 21
    omega
  · have hdigits := (length_decimalDigits_le_iff (n := v.natAbs) (k := 20) (by decide)).mpr
      (by omega)
    rw [if_neg hneg]
    show 0 + (decimalDigits v.natAbs).length + 1 ≤ 21
    omega

/-- An array tells what has been written to it. -/
theorem overwriteAt_inj {buf : Nat} {mem text text' : List UInt8} (h : buf ≤ mem.length)
    (hlen : text.length = text'.length)
    (heq : overwriteAt buf (text ++ [0]) mem = overwriteAt buf (text' ++ [0]) mem) :
    text = text' := by
  have htake := take_overwriteAt text [0] h
  rw [heq, hlen, take_overwriteAt _ _ h] at htake
  exact (List.append_cancel_left htake).symm

/-- The text it tells of is that of the conversion. -/
theorem IntegerValue.eq_convert {v : Int} (hv : IntegerValue v) {buf : Nat}
    {mem text : List UInt8} (hroom : buf + 21 ≤ mem.length)
    (h : convertAt buf v mem = .ok (text.length, overwriteAt buf (text ++ [0]) mem)) :
    text = convert v := by
  have hlen := hv.length_convert
  rw [convertAt_eq (by omega)] at h
  obtain ⟨hlength, hmem⟩ := Prod.mk.inj (Except.ok.inj h)
  exact (overwriteAt_inj (by omega) hlength hmem).symm

/-- The numbers without a sign are the ones that are written in decimal. -/
theorem writesDecimal_iff {v : Int} (hv : IntegerValue v) {buf : Nat} {mem : List UInt8}
    (hroom : buf + 21 ≤ mem.length) : WritesDecimal buf v mem ↔ 0 ≤ v := by
  constructor
  · rintro ⟨text, htext, hdecimal, -⟩
    rw [← convert_eq_iff, ← hdecimal]
    exact (hv.eq_convert hroom htext).symm
  · intro hpos
    have htext := (convert_eq_iff v).mpr hpos
    have hlen := hv.length_convert
    have hconvert : convertAt buf v mem =
        .ok ((convert v).length, overwriteAt buf (convert v ++ [0]) mem) :=
      convertAt_eq (by omega)
    refine ⟨convert v, hconvert, htext, hlen, ?_, ?_⟩
    · rw [htext, ascii_toString, parseDecimal_decimalText]
    · intro w hw hsame
      exact (convert_injective (hw.eq_convert hroom (hsame.trans hconvert))).symm

theorem writesDecimal_iff_largest :
    WritesDecimal 1 18446744073709551615 (List.replicate 22 0xff) :=
  (writesDecimal_iff (by constructor <;> decide) (by decide)).mpr (by decide)

/-- A negative number is not, nor can its text be read. -/
theorem minus_is_underscore :
    IntegerValue (-12) ∧ convertAt 0 (-12) (List.replicate 21 0xff) =
      .ok (3, ascii "_12" ++ [0] ++ List.replicate 17 0xff) ∧
      ascii (toString (-12 : Int)) = ascii "-12" ∧ parseDecimal (ascii "_12") = none ∧
      ¬ WritesDecimal 0 (-12) (List.replicate 21 0xff) := by
  have hv : IntegerValue (-12) := by constructor <;> decide
  refine ⟨hv, by decide, by decide, by decide, ?_⟩
  rintro ⟨text, htext, hdecimal, -⟩
  rw [hv.eq_convert (by decide) htext] at hdecimal
  exact absurd hdecimal (by decide)

end Libanet
