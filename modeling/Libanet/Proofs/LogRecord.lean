import Libanet.Proofs.DateTimeText
import Libanet.Proofs.LocalTime

/-!
# The frame of a log record

A record should be a line: no NUL in it, and a newline at its end. Two things
stand in the way. `T(LogLevelName[level], 6)` takes six characters of each
level's name, and those of `INFO` and `WARN` have five: the assert fails, and
without it the sixth is the NUL. And the newline is the last of all that goes
into the buffer, and goes the way of everything that does not fit. Text that
leaves too little room for it, but enough for what `finish` puts in front of
it, costs the record its end.

An insertion is kept or dropped as a whole, depending on nothing but the
number of bytes before it. So `kept` can say what becomes of any list of
insertions from its lengths, and `RoomForNewline` is what this comes to for
the five of `finish`. It has an odd shape because a long file name is better
than one that just fits: it is dropped, and leaves its room to the newline.
-/

namespace Libanet

/-! ## Numbers -/

/-- Every digit is one of the table's. -/
theorem mem_convertLoop {base : Int} (hbase : 0 < base) {digit : Int → UInt8} {fuel : Nat}
    {i : Int} {c : UInt8} (h : c ∈ convertLoop base digit fuel i) :
    ∃ lsd, -base < lsd ∧ lsd < base ∧ c = digit lsd := by
  induction fuel generalizing i with
  | zero => cases h
  | succ fuel ih =>
      simp only [convertLoop] at h
      rcases List.mem_cons.mp h with rfl | h
      · exact ⟨i.tmod base, Int.lt_tmod_of_pos i hbase, Int.tmod_lt_of_pos i hbase, rfl⟩
      · split at h
        · exact ih h
        · cases h

theorem zeroAt_ne_zero {lsd : Int} (hl : -10 < lsd) (hu : lsd < 10) : zeroAt lsd ≠ 0 := by
  have htable : ∀ n : Fin 19, digits.getD n 0 ≠ 0 := by decide
  exact htable ⟨(9 + lsd).toNat, by omega⟩

theorem hexAt_ne_zero {lsd : Int} (hu : lsd < 16) : hexAt lsd ≠ 0 := by
  have htable : ∀ n : Fin 16, digitsHex.getD n 0 ≠ 0 := by decide
  exact htable ⟨lsd.toNat, by omega⟩

theorem noNul_magnitude (v : Int) : 0 ∉ magnitude v := by
  intro h
  obtain ⟨lsd, hl, hu, hc⟩ := mem_convertLoop (by decide) (List.mem_reverse.mp h)
  exact zeroAt_ne_zero hl hu hc.symm

theorem noNul_sign (v : Int) : 0 ∉ sign v := by
  unfold sign
  split <;> decide

theorem noNul_convert (v : Int) : 0 ∉ convert v := by
  have hdigits := noNul_magnitude v
  rw [magnitude, List.mem_reverse] at hdigits
  unfold convert
  rw [List.mem_reverse]
  split
  · rw [List.mem_append, not_or]
    exact ⟨hdigits, by decide⟩
  · exact hdigits

theorem noNul_convertHex (v : Nat) : 0 ∉ convertHex v := by
  intro h
  obtain ⟨lsd, -, hu, hc⟩ := mem_convertLoop (by decide) (List.mem_reverse.mp h)
  exact hexAt_ne_zero hu hc.symm

theorem noNul_append {a b : List UInt8} (ha : 0 ∉ a) (hb : 0 ∉ b) : 0 ∉ a ++ b := by
  rw [List.mem_append, not_or]
  exact ⟨ha, hb⟩

theorem noNul_replicate (n : Nat) {c : UInt8} (hc : c ≠ 0) : 0 ∉ List.replicate n c :=
  fun h => hc (List.eq_of_mem_replicate h).symm

theorem noNul_blankPadded (width : Nat) (v : Int) : 0 ∉ blankPadded width v :=
  noNul_append (noNul_replicate _ (by decide)) (noNul_append (noNul_sign v) (noNul_magnitude v))

theorem noNul_zeroPadded (width : Nat) (v : Int) : 0 ∉ zeroPadded width v :=
  noNul_append (noNul_sign v)
    (noNul_append (noNul_replicate _ (by decide)) (noNul_magnitude v))

/-! ## What is kept -/

namespace Insertion

/-- What the insertion writes. -/
def text : Insertion → List UInt8
  | bool v => if v then ascii "1" else ascii "0"
  | integer v _ => convert v
  | pointer p => ascii "0x" ++ convertHex p.toNat
  | double text _ => text.chars
  | char v => [v]
  | cstr (some str) => str.chars
  | cstr none => ascii "(null)"
  | bytes v => v

/-- How much room it asks for. -/
def room : Insertion → Nat
  | integer _ _ | pointer _ | double _ _ => kMaxNumericSize
  | i => i.text.length + 1

/-- The user inserts no NUL. In a `const char *` there is none. -/
def NulFree : Insertion → Prop
  | char v => v ≠ 0
  | bytes v => 0 ∉ v
  | _ => True

theorem noNul_text {i : Insertion} (h : i.NulFree) : 0 ∉ i.text := by
  cases i with
  | bool v => cases v <;> decide
  | integer v range => exact noNul_convert v
  | pointer p => exact noNul_append (by decide) (noNul_convertHex _)
  | double text short => exact text.noNul
  | char v => exact fun hmem => h (List.mem_singleton.mp hmem).symm
  | cstr str =>
      cases str with
      | none => decide
      | some str => exact str.noNul
  | bytes v => exact h

theorem length_text_lt_room (i : Insertion) : i.text.length < i.room := by
  cases i with
  | integer v range =>
      have := length_convert (Nat.lt_trans range (by decide))
      exact Nat.lt_of_le_of_lt this (show 21 < 48 by decide)
  | pointer p =>
      have := length_convertHex p.toNat_lt
      show (ascii "0x" ++ convertHex p.toNat).length < 48
      rw [List.length_append]
      exact Nat.lt_of_le_of_lt (Nat.add_le_add_left this _) (by decide)
  | double text short => exact short
  | bool v => exact Nat.lt_succ_self _
  | char v => exact Nat.lt_succ_self _
  | cstr str => exact Nat.lt_succ_self _
  | bytes v => exact Nat.lt_succ_self _

end Insertion

/-- What is kept of a list of insertions after `used` bytes. -/
def kept (used : Nat) : List Insertion → List UInt8
  | [] => []
  | i :: is =>
      if i.room ≤ kSmallBuffer - used then i.text ++ kept (used + i.text.length) is
      else kept used is

theorem kept_append (used : Nat) (is js : List Insertion) :
    kept used (is ++ js) = kept used is ++ kept (used + (kept used is).length) js := by
  induction is generalizing used with
  | nil => rfl
  | cons i is ih =>
      rw [List.cons_append, kept, kept]
      split
      · rw [ih, List.append_assoc, List.length_append, Nat.add_assoc]
      · exact ih used

theorem noNul_kept {is : List Insertion} (h : ∀ i ∈ is, 0 ∉ i.text) (used : Nat) :
    0 ∉ kept used is := by
  induction is generalizing used with
  | nil => exact List.not_mem_nil
  | cons i is ih =>
      have hrest := ih fun j hj => h j (List.mem_cons_of_mem i hj)
      rw [kept]
      split
      · exact noNul_append (h i List.mem_cons_self) (hrest _)
      · exact hrest used

/-- The last byte of the buffer stays free. -/
theorem length_kept {used : Nat} (h : used < kSmallBuffer) (is : List Insertion) :
    used + (kept used is).length < kSmallBuffer := by
  induction is generalizing used with
  | nil => exact h
  | cons i is ih =>
      rw [kept]
      split
      · next hroom =>
          have hlt := i.length_text_lt_room
          rw [List.length_append, ← Nat.add_assoc]
          exact ih (by omega)
      · exact ih h

namespace LogStream

theorem data_append (v : List UInt8) (s : LogStream) :
    (s.append v).buffer.data =
      if v.length + 1 ≤ s.buffer.avail then s.buffer.data ++ v else s.buffer.data := by
  show (s.buffer.append v).data = _
  split
  · next h => exact FixedBuffer.data_append_of_lt h
  · next h => rw [FixedBuffer.append_of_le (Nat.not_lt.mp h)]

theorem data_formatNumeric {v : List UInt8} (h : v.length ≤ kMaxNumericSize) (s : LogStream) :
    (s.formatNumeric v h).buffer.data =
      if kMaxNumericSize ≤ s.buffer.avail then s.buffer.data ++ v else s.buffer.data := by
  unfold formatNumeric
  split <;> rfl

theorem data_insert (i : Insertion) (s : LogStream) :
    (s.insert i).buffer.data =
      if i.room ≤ s.buffer.avail then s.buffer.data ++ i.text else s.buffer.data := by
  cases i with
  | bool v => exact data_append _ s
  | integer v range =>
      unfold insert formatInteger
      exact data_formatNumeric _ s
  | pointer p =>
      unfold insert
      exact data_formatNumeric _ s
  | double text short =>
      unfold insert
      exact data_formatNumeric _ s
  | char v => exact data_append _ s
  | cstr str =>
      cases str with
      | none => exact data_append _ s
      | some str => exact data_append _ s
  | bytes v => exact data_append _ s

theorem data_foldl (is : List Insertion) (s : LogStream) :
    (is.foldl (fun s i => s.insert i) s).buffer.data =
      s.buffer.data ++ kept s.buffer.data.length is := by
  induction is generalizing s with
  | nil => exact (List.append_nil _).symm
  | cons i is ih =>
      rw [List.foldl_cons, ih, data_insert, kept]
      have havail : s.buffer.avail = kSmallBuffer - s.buffer.data.length := rfl
      rw [havail]
      split
      · rw [List.length_append, List.append_assoc]
      · rfl

end LogStream

/-! ## The end of the record -/

/-- The text that is kept, of which the first part is `used` bytes long, leaves
the newline of `finish` its place; or it fills the buffer and happens to end
with a newline of its own. -/
def RoomForNewline (used : Nat) (text name : List UInt8) : Prop :=
  let f := used + text.length
  f + name.length ≤ 3996 ∨ f ≤ 3996 ∧ 3999 ≤ f + name.length ∨
    f = 3999 ∧ text.getLast? = some 0x0a ∨ f + name.length = 3998 ∧ name.getLast? = some 0x0a

instance (used : Nat) (text name : List UInt8) : Decidable (RoomForNewline used text name) :=
  inferInstanceAs (Decidable (_ ∨ _ ∧ _ ∨ _ ∧ _ ∨ _ ∧ _))

/-- The insertions of `finish`, but for the last. -/
def place (file : CString) (line : Int) (range : line.natAbs < 2 ^ 64) : List Insertion :=
  [.bytes (ascii "-"), .bytes (basename file).chars, .char 0x3a, .integer line range]

theorem finish_eq (file : CString) (line : Int) (range : line.natAbs < 2 ^ 64) (s : LogStream) :
    Logger.finish file line range s =
      (place file line range ++ [Insertion.char 0x0a]).foldl (fun s i => s.insert i) s := rfl

theorem kept_of_le {used : Nat} {i : Insertion} (h : i.room ≤ kSmallBuffer - used)
    (is : List Insertion) : kept used (i :: is) = i.text ++ kept (used + i.text.length) is :=
  if_pos h

theorem kept_of_lt {used : Nat} {i : Insertion} (h : kSmallBuffer - used < i.room)
    (is : List Insertion) : kept used (i :: is) = kept used is :=
  if_neg (Nat.not_le.mpr h)

/-- The dash, if there is room for it. -/
theorem kept_dash {f : Nat} (h : f ≤ 3998) (is : List Insertion) :
    kept f (.bytes (ascii "-") :: is) = ascii "-" ++ kept (f + 1) is :=
  kept_of_le (show 2 ≤ 4000 - f by omega) is

theorem kept_name {f : Nat} {name : List UInt8} (h : f + name.length ≤ 3999)
    (is : List Insertion) : kept f (.bytes name :: is) = name ++ kept (f + name.length) is :=
  kept_of_le (show name.length + 1 ≤ 4000 - f by omega) is

theorem drop_name {f : Nat} {name : List UInt8} (h : 4000 ≤ f + name.length)
    (is : List Insertion) : kept f (.bytes name :: is) = kept f is :=
  kept_of_lt (show 4000 - f < name.length + 1 by omega) is

theorem kept_char {f : Nat} {c : UInt8} (h : f ≤ 3998) (is : List Insertion) :
    kept f (.char c :: is) = [c] ++ kept (f + 1) is :=
  kept_of_le (show 2 ≤ 4000 - f by omega) is

theorem drop_char {f : Nat} {c : UInt8} (h : 3999 ≤ f) (is : List Insertion) :
    kept f (.char c :: is) = kept f is :=
  kept_of_lt (show 4000 - f < 2 by omega) is

/-- The line number leaves room behind it, or is not there. -/
theorem length_kept_line {f : Nat} (h : f ≤ 3998) (line : Int) (range : line.natAbs < 2 ^ 64) :
    f + (kept f [.integer line range]).length ≤ 3998 := by
  by_cases hfits : f ≤ 3952
  · have hlength : (convert line).length ≤ 21 := length_convert (Nat.lt_trans range (by decide))
    rw [kept_of_le (show 48 ≤ 4000 - f by omega), kept, List.append_nil]
    show f + (convert line).length ≤ 3998
    omega
  · rw [kept_of_lt (show 4000 - f < 48 by omega)]
    exact h

theorem drop_line {f : Nat} (h : 3953 ≤ f) (line : Int) (range : line.natAbs < 2 ^ 64) :
    kept f [.integer line range] = [] :=
  kept_of_lt (show 4000 - f < 48 by omega) []

theorem drop_rest {f : Nat} (h : 3999 ≤ f) (line : Int) (range : line.natAbs < 2 ^ 64) :
    kept f [.char 0x3a, .integer line range] = [] := by
  rw [drop_char h, drop_line (by omega)]

/-- The colon and the line number, when there is room for the newline too. -/
theorem length_kept_rest {f : Nat} (h : f ≤ 3997) (line : Int) (range : line.natAbs < 2 ^ 64) :
    f + (kept f [.char 0x3a, .integer line range]).length ≤ 3998 := by
  have hline := length_kept_line (f := f + 1) (by omega) line range
  rw [kept_char (by omega), List.length_append, List.length_singleton]
  omega

/-- The colon takes the last place. -/
theorem kept_rest {f : Nat} (h : f = 3998) (line : Int) (range : line.natAbs < 2 ^ 64) :
    kept f [.char 0x3a, .integer line range] = [0x3a] := by
  rw [kept_char (by omega), drop_line (by omega), List.append_nil]

theorem getLast?_dash (text name : List UInt8) :
    (text ++ (ascii "-" ++ name)).getLast? = some 0x0a ↔ name.getLast? = some 0x0a := by
  cases hname : name.getLast? with
  | none =>
      rw [List.getLast?_eq_none_iff.mp hname, List.append_nil, List.getLast?_append,
        show (ascii "-").getLast? = some 0x2d from rfl, Option.some_or]
      exact iff_of_false (by decide) (by decide)
  | some c => rw [List.getLast?_append, List.getLast?_append, hname, Option.some_or, Option.some_or]

/-- Whether the newline finds a place behind what `finish` puts in front of it,
or is not missed. -/
theorem place_spec {f : Nat} (hf : f ≤ 3999) (file : CString) (line : Int)
    (range : line.natAbs < 2 ^ 64) {name : List UInt8} (hname : (basename file).chars = name)
    (text : List UInt8) :
    (f + (kept f (place file line range)).length ≤ 3998 ∨
        (text ++ kept f (place file line range)).getLast? = some 0x0a) ↔
      f + name.length ≤ 3996 ∨ f ≤ 3996 ∧ 3999 ≤ f + name.length ∨
        f = 3999 ∧ text.getLast? = some 0x0a ∨
        f + name.length = 3998 ∧ name.getLast? = some 0x0a := by
  have hdash : (ascii "-").length = 1 := rfl
  rw [place, hname]
  rcases Nat.lt_or_eq_of_le hf with hlt | rfl
  · rw [kept_dash (by omega)]
    by_cases hkept : f + 1 + name.length ≤ 3999
    · rw [kept_name hkept]
      by_cases hroom : f + 1 + name.length ≤ 3997
      · have hrest := length_kept_rest hroom line range
        refine iff_of_true (.inl ?_) (.inl (by omega))
        rw [List.length_append, List.length_append, hdash]
        omega
      · by_cases hcolon : f + 1 + name.length = 3998
        · rw [kept_rest hcolon]
          refine iff_of_false ?_ (by omega)
          rw [List.length_append, List.length_append, hdash, List.length_singleton,
            ← List.append_assoc, ← List.append_assoc, List.getLast?_concat]
          simp only [Option.some.injEq]
          rintro (h | h)
          · omega
          · exact absurd h (by decide)
        · -- The name fills the buffer.
          rw [drop_rest (by omega), List.append_nil, getLast?_dash, List.length_append, hdash]
          constructor
          · rintro (h | h)
            · omega
            · exact .inr (.inr (.inr ⟨by omega, h⟩))
          · rintro (h | h | h | h)
            · omega
            · omega
            · omega
            · exact .inr h.2
    · rw [drop_name (by omega)]
      by_cases hroom : f + 1 ≤ 3997
      · have hrest := length_kept_rest hroom line range
        refine iff_of_true (.inl ?_) (.inr (.inl (by omega)))
        rw [List.length_append, hdash]
        omega
      · by_cases hcolon : f + 1 = 3998
        · rw [kept_rest hcolon]
          refine iff_of_false ?_ (by omega)
          rw [List.length_append, hdash, List.length_singleton, ← List.append_assoc,
            List.getLast?_concat]
          simp only [Option.some.injEq]
          rintro (h | h)
          · omega
          · exact absurd h (by decide)
        · rw [drop_rest (by omega), getLast?_dash, List.length_append, hdash]
          refine iff_of_false ?_ (by omega)
          rintro (h | h)
          · omega
          · cases h
  · have hnone : kept 3999 [.bytes (ascii "-"), .bytes name, .char 0x3a, .integer line range] =
        [] := by
      rw [kept_of_lt (show 4000 - 3999 < 2 by decide)]
      cases name with
      | nil => rw [kept_name (by decide), List.nil_append, drop_rest (by simp)]
      | cons c name =>
          have hlong : 4000 ≤ 3999 + (c :: name).length := by
            rw [List.length_cons]
            omega
          rw [drop_name hlong, drop_rest (Nat.le_refl _)]
    rw [hnone, List.append_nil]
    constructor
    · rintro (h | h)
      · exact absurd h (by decide)
      · exact .inr (.inr (.inl ⟨rfl, h⟩))
    · rintro (h | h | h | h)
      · omega
      · omega
      · exact .inr h.2
      · omega

/-! ## The beginning of the record -/

theorem noNul_formatDateTime (dt : DateTime) : 0 ∉ formatDateTime dt := by
  unfold formatDateTime
  refine noNul_append (noNul_append (noNul_append (noNul_append (noNul_append (noNul_append
    (noNul_append (noNul_append ?_ ?_) ?_) ?_) ?_) ?_) ?_) ?_) ?_
  all_goals first | exact noNul_blankPadded _ _ | exact noNul_zeroPadded _ _ | decide

/-- Before the year 9999 the date has the length that is expected of it. -/
theorem BreakTime_length {t : Int} (hl : 0 ≤ t) (hu : t < 253370764800) :
    ∃ dt, BreakTime t = .ok dt ∧ (formatDateTime dt).length = 17 := by
  obtain ⟨dt, hdt, hcolumns, hyear⟩ := ShownSecond.breakTime (t := t) ⟨by omega, by omega⟩
  exact ⟨dt, hdt, by rw [hcolumns.length_formatDateTime, if_pos (hyear.mpr (by omega))]⟩

namespace LogEnv

variable (env : LogEnv)

def seconds : Int := env.now.tdiv Timestamp.kMicroSecondsPerSecond

/-- The seconds on the clock of the log. -/
def shown : Int :=
  match env.logTimeZone.data with
  | none => env.seconds
  | some d => env.seconds + d.offsetAt env.seconds

/-- The zone has the tables of one, and the clock is past the first second of
the epoch and before the year 9999. -/
structure ClockOk : Prop where
  zone : ∀ d, env.logTimeZone.data = some d → d.Valid
  started : Timestamp.kMicroSecondsPerSecond ≤ env.now
  shown : 0 ≤ env.shown ∧ env.shown < 253370764800

/-- The microseconds and the blank behind them. -/
def us : List UInt8 :=
  if env.logTimeZone.valid then
    ascii "." ++ zeroPadded 6 (env.now.tmod Timestamp.kMicroSecondsPerSecond) ++ ascii " "
  else ascii "." ++ zeroPadded 6 (env.now.tmod Timestamp.kMicroSecondsPerSecond) ++ ascii "Z "

def usLength : Nat := if env.logTimeZone.valid then 8 else 9

variable {env}

theorem ClockOk.nonneg (h : env.ClockOk) : 0 ≤ env.now :=
  Int.le_trans (by decide) h.started

theorem ClockOk.seconds_pos (h : env.ClockOk) : 0 < env.seconds := by
  have hstarted : (1000000 : Int) ≤ env.now := h.started
  have hdiv : env.seconds = env.now / 1000000 := Int.tdiv_eq_ediv_of_nonneg h.nonneg
  omega

theorem length_us (h : 0 ≤ env.now) : env.us.length = env.usLength := by
  have hmod := Int.tmod_lt_of_pos env.now (show (0 : Int) < 1000000 by decide)
  have hnonneg := Int.tmod_nonneg 1000000 h
  have hmicro : (env.now.tmod 1000000).natAbs < 1000000 := by omega
  have hsix : (zeroPadded 6 (env.now.tmod Timestamp.kMicroSecondsPerSecond)).length = 6 :=
    length_zeroPadded (n := 5) hnonneg hmicro
  unfold us usLength
  split <;> simp only [List.length_append, hsix] <;> rfl

theorem noNul_us : 0 ∉ env.us := by
  unfold us
  split <;>
    exact noNul_append (noNul_append (by decide) (noNul_zeroPadded _ _)) (by decide)

end LogEnv

/-- What a thread keeps: nothing yet, or the text of a second. -/
structure LogThread.Ok (th : LogThread) : Prop where
  tid : th.tid.natAbs < 2 ^ 31
  time : th.lastSecond = 0 ∧ th.time = [] ∨ th.time.length = 17 ∧ 0 ∉ th.time

variable {env : LogEnv} {th : LogThread}

theorem dateTime_of_none (h : env.logTimeZone.data = none) (seconds : Int) :
    Logger.dateTime env seconds = BreakTime seconds := by
  rw [Logger.dateTime, if_neg (by simp [TimeZone.valid, h]), toUtcTime]

theorem dateTime_of_some {d : ZoneData} {lt : LocalTime} {seconds : Int}
    (h : env.logTimeZone.data = some d) (hlt : d.findLocalTime seconds = .ok lt)
    (hfits : Fits 64 (seconds + lt.utcOffset)) :
    Logger.dateTime env seconds = BreakTime (seconds + lt.utcOffset) := by
  rw [Logger.dateTime, if_pos (by simp [TimeZone.valid, h])]
  simp only [TimeZone.toLocalTime, TimeZone.deref, h, ok_bind, hlt, signed_of hfits]
  cases BreakTime (seconds + lt.utcOffset) <;> rfl

/-- The date is that of the clock of the log. -/
theorem dateTime_eq (henv : env.ClockOk) :
    Logger.dateTime env env.seconds = BreakTime env.shown := by
  cases hdata : env.logTimeZone.data with
  | none =>
      rw [dateTime_of_none hdata]
      simp only [LogEnv.shown, hdata]
  | some d =>
      obtain ⟨lt, hlt, hoffset⟩ := (henv.zone d hdata).findLocalTime_eq env.seconds
      have hshown : env.shown = env.seconds + lt.utcOffset := by
        simp only [LogEnv.shown, hdata, hoffset]
      obtain ⟨hl, hu⟩ := henv.shown
      rw [hshown] at hl hu ⊢
      exact dateTime_of_some hdata hlt (fits_long.mpr (by omega))

/-- The seconds are formatted, and what is kept of the text is all of it. -/
theorem formatSeconds_of_ne {seconds : Int} {dt : DateTime} (hne : seconds ≠ th.lastSecond)
    (hdt : Logger.dateTime env seconds = .ok dt) (hle : (formatDateTime dt).length ≤ 63) :
    Logger.formatSeconds env seconds th = (do
      assertIn env.debug ((formatDateTime dt).length = 17)
      return { th with lastSecond := seconds, time := formatDateTime dt }) := by
  rw [Logger.formatSeconds, if_pos hne, hdt, ok_bind, List.take_of_length_le hle]

/-- The text of the second is the last one's, or is made. -/
theorem formatSeconds_ok (henv : env.ClockOk) (hth : th.Ok) :
    ∃ th', Logger.formatSeconds env env.seconds th = .ok th' ∧ th'.Ok ∧ th'.tid = th.tid ∧
      th'.time.length = 17 ∧ 0 ∉ th'.time := by
  by_cases hsame : env.seconds ≠ th.lastSecond
  · obtain ⟨dt, hdt, hlength⟩ := BreakTime_length henv.shown.1 henv.shown.2
    refine ⟨{ th with lastSecond := env.seconds, time := formatDateTime dt }, ?_,
      ⟨hth.tid, .inr ⟨hlength, noNul_formatDateTime dt⟩⟩, rfl, hlength, noNul_formatDateTime dt⟩
    rw [formatSeconds_of_ne hsame ((dateTime_eq henv).trans hdt) (by omega),
      assertIn_of env.debug hlength]
    rfl
  · refine ⟨th, if_neg hsame, hth, rfl, ?_⟩
    rcases hth.time with ⟨hzero, -⟩ | htime
    · -- The clock is past the second that stands for none.
      have := henv.seconds_pos
      omega
    · exact htime

theorem T_of {str : List UInt8} {len : Nat} (debug : Bool) (h : str.length = len) :
    T debug str len = .ok str := by
  rw [T, assertIn_of debug h, ← h]
  show Except.ok ((str ++ List.replicate str.length 0).take str.length) = _
  rw [List.take_left]

/-- The microseconds have the length that is expected of them. -/
theorem formatTime_eq (hnow : 0 ≤ env.now) (stream : LogStream) :
    Logger.formatTime env th stream = (do
      let th' ← Logger.formatSeconds env env.seconds th
      let time ← T env.debug th'.time 17
      return (th', (stream.append time).append env.us)) := by
  have hus := LogEnv.length_us hnow
  unfold LogEnv.us LogEnv.usLength at hus
  unfold Logger.formatTime LogEnv.us LogEnv.seconds
  cases hvalid : env.logTimeZone.valid with
  | false =>
      simp only [hvalid, Bool.false_eq_true, if_false] at hus ⊢
      simp only [assertIn_of env.debug hus, T_of env.debug hus, ok_bind]
  | true =>
      simp only [hvalid, if_true] at hus ⊢
      simp only [assertIn_of env.debug hus, T_of env.debug hus, ok_bind]

/-- The insertions of a constructor, behind what they have in common. -/
def LoggerArgs.insertions (env : LogEnv) : LoggerArgs → List Insertion
  | .sys _ savedErrno range =>
      if savedErrno ≠ 0 then
        [.cstr (some env.strerror), .bytes (ascii " (errno="), .integer savedErrno range,
          .bytes (ascii ") ")]
      else []
  | .func _ f => [.cstr (some f), .char 0x20]
  | _ => []

theorem LoggerArgs.nulFree_insertions (args : LoggerArgs) :
    ∀ i ∈ args.insertions env, i.NulFree := by
  have hspace : (0 : UInt8) ∉ ascii " (errno=" ∧ (0 : UInt8) ∉ ascii ") " := by decide
  intro i hi
  unfold insertions at hi
  split at hi
  · split at hi
    · simp only [List.mem_cons, List.not_mem_nil, or_false] at hi
      rcases hi with rfl | rfl | rfl | rfl
      · trivial
      · exact hspace.1
      · trivial
      · exact hspace.2
    · cases hi
  · simp only [List.mem_cons, List.not_mem_nil, or_false] at hi
    rcases hi with rfl | rfl
    · trivial
    · exact (by decide : (0x20 : UInt8) ≠ 0)
  · cases hi

/-- The time, the thread and the level, in the stream. -/
def header (env : LogEnv) (time name : List UInt8) (tid : Int) : List Insertion :=
  [.bytes time, .bytes env.us, .bytes (blankPadded 5 tid), .bytes name]

theorem new_eq (henv : env.ClockOk) (hth : th.Ok) (args : LoggerArgs) :
    ∃ th' : LogThread, th'.Ok ∧ th'.time.length = 17 ∧ 0 ∉ th'.time ∧
      Logger.new env args th = (do
        let name ← T env.debug (LogLevelName args.logLevel) 6
        return (th', (header env th'.time name th.tid ++ args.insertions env).foldl
          (fun s i => s.insert i) .new)) := by
  obtain ⟨th', hformat, hth', htid, hlength, hnoNul⟩ := formatSeconds_ok henv hth
  refine ⟨th', hth', hlength, hnoNul, ?_⟩
  have htime : Logger.formatTime env th .new =
      .ok (th', ((LogStream.new.insert (.bytes th'.time)).insert (.bytes env.us))) := by
    rw [formatTime_eq henv.nonneg, hformat, ok_bind, T_of env.debug hlength]
    rfl
  rw [Logger.new, htime, ok_bind]
  simp only [T_of env.debug rfl, ok_bind, htid]
  cases T env.debug (LogLevelName args.logLevel) 6 with
  | error e => rfl
  | ok name =>
      cases args with
      | plain => rfl
      | level l => rfl
      | func l f => rfl
      | sys toAbort savedErrno range =>
          unfold LoggerArgs.insertions Logger.insertErrno
          simp only [ok_bind]
          split
          · rfl
          · rfl

/-- The length of what the constructors have in common. -/
def headerLength (env : LogEnv) (th : LogThread) : Nat :=
  17 + env.usLength + (blankPadded 5 th.tid).length + 6

theorem LogThread.Ok.headerLength_le (h : th.Ok) (env : LogEnv) : headerLength env th ≤ 50 := by
  have hdigits := length_magnitude (v := th.tid) (n := 9) (Nat.lt_trans h.tid (by decide))
  have hsign : (sign th.tid).length ≤ 1 := by
    unfold sign
    split <;> decide
  have hus : env.usLength ≤ 9 := by
    unfold LogEnv.usLength
    split <;> decide
  simp only [headerLength, blankPadded, List.length_append, List.length_replicate]
  omega

/-- The beginning is never too long. -/
theorem kept_header (henv : env.ClockOk) (hth : th.Ok) {time name : List UInt8}
    (htime : time.length = 17) (hname : name.length = 6) (is : List Insertion) :
    kept 0 (header env time name th.tid ++ is) =
      (time ++ env.us ++ blankPadded 5 th.tid ++ name) ++ kept (headerLength env th) is := by
  have hus := LogEnv.length_us henv.nonneg
  have hle := hth.headerLength_le env
  unfold headerLength at hle ⊢
  simp only [header, List.cons_append, List.nil_append]
  rw [kept_name (by omega), kept_name (by omega), kept_name (by omega), kept_name (by omega), htime,
    hus, hname, Nat.zero_add]
  simp only [List.append_assoc]

/-! ## The record -/

/-- A line: no NUL, and a newline at the end. -/
def Framed (r : List UInt8) : Prop := 0 ∉ r ∧ r.getLast? = some 0x0a

variable {args : LoggerArgs} {file : CString} {line : Int} {range : line.natAbs < 2 ^ 64}
  {insertions : List Insertion}

/-- What the user's insertions leave, and those of the constructor that go
before them. -/
def userText (env : LogEnv) (th : LogThread) (args : LoggerArgs) (insertions : List Insertion) :
    List UInt8 :=
  kept (headerLength env th) (args.insertions env ++ insertions)

theorem record_eq (henv : env.ClockOk) (hth : th.Ok) (args : LoggerArgs) (file : CString)
    (line : Int) (range : line.natAbs < 2 ^ 64) (insertions : List Insertion) :
    ∃ th' : LogThread, th'.Ok ∧ th'.time.length = 17 ∧ 0 ∉ th'.time ∧
      Logger.record env args file line range insertions th = (do
        let name ← T env.debug (LogLevelName args.logLevel) 6
        return (th', kept 0 (header env th'.time name th.tid ++ (args.insertions env ++
          insertions ++ (place file line range ++ [.char 0x0a]))))) := by
  obtain ⟨th', hth', hlength, hnoNul, hnew⟩ := new_eq henv hth args
  refine ⟨th', hth', hlength, hnoNul, ?_⟩
  rw [Logger.record, hnew]
  cases T env.debug (LogLevelName args.logLevel) 6 with
  | error e => rfl
  | ok name =>
      simp only [ok_bind]
      show Except.ok (th', _) = Except.ok (th', _)
      rw [finish_eq, ← List.foldl_append, ← List.foldl_append, LogStream.data_foldl]
      simp only [LogStream.new, FixedBuffer.data_new, List.nil_append, List.length_nil,
        List.append_assoc]

/-- The end of a record that has got past its beginning. -/
theorem getLast?_record (henv : env.ClockOk) (hth : th.Ok) (args : LoggerArgs) (file : CString)
    (line : Int) (range : line.natAbs < 2 ^ 64) (insertions : List Insertion)
    {time name : List UInt8} (htime : time.length = 17) (hname : name.length = 6) :
    (kept 0 (header env time name th.tid ++ (args.insertions env ++ insertions ++
      (place file line range ++ [.char 0x0a])))).getLast? = some 0x0a ↔
      RoomForNewline (headerLength env th) (userText env th args insertions)
        (basename file).chars := by
  have hle := hth.headerLength_le env
  have huser : kept (headerLength env th) (args.insertions env ++ insertions) =
      userText env th args insertions := rfl
  have hf := length_kept (show headerLength env th < 4000 by omega)
    (args.insertions env ++ insertions)
  rw [kept_header henv hth htime hname, kept_append, huser, kept_append]
  rw [huser] at hf
  generalize userText env th args insertions = text at hf ⊢
  generalize time ++ env.us ++ blankPadded 5 th.tid ++ name = head
  have hlast : ∀ body : List UInt8, headerLength env th + text.length + body.length ≤ 3999 →
      ((head ++ (text ++ (body ++ kept (headerLength env th + text.length + body.length)
        [.char 0x0a]))).getLast? = some 0x0a ↔
        headerLength env th + text.length + body.length ≤ 3998 ∨
          ((head ++ text) ++ body).getLast? = some 0x0a) := by
    intro body hbody
    by_cases hroom : headerLength env th + text.length + body.length ≤ 3998
    · refine iff_of_true ?_ (.inl hroom)
      rw [kept_char hroom, kept, List.append_nil, ← List.append_assoc, ← List.append_assoc,
        List.getLast?_concat]
    · rw [drop_char (by omega), kept, List.append_nil, ← List.append_assoc]
      exact ⟨.inr, fun h => h.resolve_left hroom⟩
  have hplace := length_kept hf (place file line range)
  rw [hlast _ (Nat.le_of_lt_succ hplace), place_spec (Nat.le_of_lt_succ hf) file line range rfl,
    RoomForNewline]
  -- Text that fills the buffer is not empty.
  have hfull : headerLength env th + text.length = 3999 →
      ((head ++ text).getLast? = some 0x0a ↔ text.getLast? = some 0x0a) := by
    intro hfull
    cases htext : text.getLast? with
    | none =>
        rw [List.getLast?_eq_none_iff.mp htext, List.length_nil] at hfull
        omega
    | some c => rw [List.getLast?_append, htext, Option.some_or]
  refine or_congr_right (or_congr_right (or_congr_left (and_congr_right hfull)))

theorem length_LogLevelName (level : LogLevel) :
    (LogLevelName level).length = 6 ↔ level ≠ .INFO ∧ level ≠ .WARN := by
  cases level <;> decide

/-- The names that are too short are followed by their NUL. -/
theorem T_LogLevelName {level : LogLevel} (h : level = .INFO ∨ level = .WARN) :
    T true (LogLevelName level) 6 = .error .assertion ∧
      ∃ name, T false (LogLevelName level) 6 = .ok name ∧ name.length = 6 ∧ 0 ∈ name := by
  rcases h with rfl | rfl
  · exact ⟨rfl, _, rfl, by decide, by decide⟩
  · exact ⟨rfl, _, rfl, by decide, by decide⟩

/-- The pieces of the beginning and the end have no NULs of their own. -/
theorem noNul_pieces {time name : List UInt8} (htime : 0 ∉ time) (hname : 0 ∉ name)
    (hins : ∀ i ∈ insertions, i.NulFree) :
    ∀ i ∈ header env time name th.tid ++ (args.insertions env ++ insertions ++
      (place file line range ++ [.char 0x0a])), 0 ∉ i.text := by
  have hdash : (0 : UInt8) ∉ ascii "-" := by decide
  intro i hi
  simp only [header, place, List.mem_append, List.mem_cons, List.not_mem_nil, or_false] at hi
  rcases hi with (rfl | rfl | rfl | rfl) | (hi | hi) | (rfl | rfl | rfl | rfl) | rfl
  · exact htime
  · exact LogEnv.noNul_us
  · exact noNul_blankPadded 5 th.tid
  · exact hname
  · exact Insertion.noNul_text (args.nulFree_insertions i hi)
  · exact Insertion.noNul_text (hins i hi)
  · exact hdash
  · exact (basename file).noNul
  · exact Insertion.noNul_text (i := .char 0x3a) (by simp [Insertion.NulFree])
  · exact noNul_convert line
  · exact Insertion.noNul_text (i := .char 0x0a) (by simp [Insertion.NulFree])

/-! ## Lines -/

/-- Cutting behind every newline; `line` is what has been read of the present
line. -/
def splitLines (line : List UInt8) : List UInt8 → List (List UInt8)
  | [] => if line = [] then [] else [line]
  | c :: cs => if c = 0x0a then (line ++ [c]) :: splitLines [] cs else splitLines (line ++ [c]) cs

theorem splitLines_append {body : List UInt8} (h : 0x0a ∉ body) (line rest : List UInt8) :
    splitLines line (body ++ 0x0a :: rest) = (line ++ (body ++ [0x0a])) :: splitLines [] rest := by
  induction body generalizing line with
  | nil => rfl
  | cons c body ih =>
      have hc : c ≠ 0x0a := fun heq => h (heq ▸ List.mem_cons_self)
      rw [List.cons_append, splitLines, if_neg hc, ih fun hmem => h (List.mem_cons_of_mem c hmem)]
      simp

/-- Records that are lines can be told apart. -/
theorem splitLines_flatten {rs : List (List UInt8)}
    (h : ∀ r ∈ rs, Framed r ∧ 0x0a ∉ r.dropLast) : splitLines [] rs.flatten = rs := by
  induction rs with
  | nil => rfl
  | cons r rs ih =>
      obtain ⟨⟨-, hlast⟩, hbody⟩ := h r List.mem_cons_self
      have hr : r = r.dropLast ++ [0x0a] := by
        have hne : r ≠ [] := by
          rintro rfl
          cases hlast
        have hget := List.dropLast_concat_getLast hne
        rw [List.getLast?_eq_some_getLast hne] at hlast
        rw [← hget, Option.some.inj hlast]
        simp
      have hcut := splitLines_append hbody [] rs.flatten
      rw [List.nil_append, ← hr] at hcut
      have hflat : (r :: rs).flatten = r.dropLast ++ 0x0a :: rs.flatten := by
        rw [List.flatten_cons]
        nth_rewrite 1 [hr]
        simp
      rw [hflat, hcut, ih fun r' hr' => h r' (List.mem_cons_of_mem r hr')]

theorem framed_iff (henv : env.ClockOk) (hth : th.Ok) (hins : ∀ i ∈ insertions, i.NulFree) :
    (∃ th' r, Logger.record env args file line range insertions th = .ok (th', r) ∧ th'.Ok ∧
      Framed r) ↔ (args.logLevel ≠ .INFO ∧ args.logLevel ≠ .WARN) ∧
        RoomForNewline (headerLength env th) (userText env th args insertions)
          (basename file).chars := by
  obtain ⟨th', hth', htime, hnoNul, hrecord⟩ := record_eq henv hth args file line range insertions
  rw [hrecord]
  by_cases hlevel : args.logLevel ≠ .INFO ∧ args.logLevel ≠ .WARN
  · have hlength := (length_LogLevelName _).mpr hlevel
    have hend := getLast?_record henv hth args file line range insertions htime hlength
    rw [T_of env.debug hlength, ok_bind]
    constructor
    · rintro ⟨th'', r, hr, -, -, hlast⟩
      cases hr
      exact ⟨hlevel, hend.mp hlast⟩
    · rintro ⟨-, hroom⟩
      have hname : 0 ∉ LogLevelName args.logLevel := by cases args.logLevel <;> decide
      exact ⟨th', _, rfl, hth', noNul_kept (noNul_pieces hnoNul hname hins) 0, hend.mpr hroom⟩
  · refine iff_of_false ?_ fun h => hlevel h.1
    have hshort : args.logLevel = .INFO ∨ args.logLevel = .WARN := by
      rw [not_and_or, not_not, not_not] at hlevel
      exact hlevel
    obtain ⟨hassert, name, hname, hlength, hnul⟩ := T_LogLevelName hshort
    rintro ⟨th'', r, hr, -, hnoNul', -⟩
    cases hdebug : env.debug with
    | true =>
        rw [hdebug, hassert] at hr
        cases hr
    | false =>
        rw [hdebug, hname, ok_bind] at hr
        cases hr
        rw [kept_header henv hth htime hlength] at hnoNul'
        exact hnoNul' (List.mem_append_left _ (List.mem_append_right _ hnul))

/-- What is handed to `g_output` is a line exactly if the name of the level has
its six characters, and the text leaves room for the newline or stands in for
it. Lines that have no newline but at their ends are what the output splits
back into. -/
theorem records_framed_iff (henv : env.ClockOk) (hth : th.Ok)
    (hins : ∀ i ∈ insertions, i.NulFree) :
    ((∃ th' r, Logger.record env args file line range insertions th = .ok (th', r) ∧ th'.Ok ∧
      Framed r) ↔ (args.logLevel ≠ .INFO ∧ args.logLevel ≠ .WARN) ∧
        RoomForNewline (headerLength env th) (userText env th args insertions)
          (basename file).chars) ∧
      ∀ rs : List (List UInt8), (∀ r ∈ rs, Framed r ∧ 0x0a ∉ r.dropLast) →
        splitLines [] rs.flatten = rs :=
  ⟨framed_iff henv hth hins, fun _ h => splitLines_flatten h⟩

/-- A clock of 2025, and UTC. -/
def someEnv (debug : Bool) : LogEnv := ⟨debug, {}, 1759999999123456, ⟨[], by decide⟩⟩

theorem someEnv_clockOk (debug : Bool) : (someEnv debug).ClockOk where
  zone d hd := by cases hd
  started := by
    show (1000000 : Int) ≤ 1759999999123456
    decide
  shown := by
    show (0 : Int) ≤ 1759999999 ∧ (1759999999 : Int) < 253370764800
    decide

def someFile : CString := ⟨ascii "src/net/Poller.cc", by decide⟩

def someThread : LogThread := { tid := 1234 }

theorem someThread_ok : someThread.Ok := ⟨by decide, .inl ⟨rfl, rfl⟩⟩

theorem records_framed_iff_error :
    ∃ th' r, Logger.record (someEnv true) (.level .ERROR) someFile 42 (by decide)
      [.bytes (ascii "lost "), .integer (-3) (by decide)] someThread = .ok (th', r) ∧ th'.Ok ∧
      Framed r := by
  have hins : ∀ i ∈ [Insertion.bytes (ascii "lost "), .integer (-3) (by decide)], i.NulFree := by
    have hlost : (0 : UInt8) ∉ ascii "lost " := by decide
    intro i hi
    simp only [List.mem_cons, List.not_mem_nil, or_false] at hi
    rcases hi with rfl | rfl
    · exact hlost
    · trivial
  refine (records_framed_iff (someEnv_clockOk true) someThread_ok hins).1.mpr ⟨by decide, ?_⟩
  decide

/-- `LOG_INFO` stops at the assert, or writes the NUL behind `INFO`; and an
error of so many bytes is left without its newline. -/
theorem records_not_framed :
    (Logger.record (someEnv true) .plain someFile 42 (by decide) [] someThread).isOk = false ∧
      (∃ th' r, Logger.record (someEnv false) .plain someFile 42 (by decide) [] someThread =
        .ok (th', r) ∧ 0 ∈ r) ∧
      ∃ th' r, Logger.record (someEnv true) (.level .ERROR) someFile 42 (by decide)
        [.bytes (List.replicate 3951 0x78)] someThread = .ok (th', r) ∧
        r.getLast? ≠ some 0x0a := by
  refine ⟨rfl, ⟨_, _, rfl, by decide⟩, ?_⟩
  obtain ⟨th', -, htime, -, hrecord⟩ := record_eq (someEnv_clockOk true) someThread_ok
    (.level .ERROR) someFile 42 (by decide) [.bytes (List.replicate 3951 0x78)]
  have hend := getLast?_record (someEnv_clockOk true) someThread_ok (.level .ERROR) someFile 42
    (by decide) [.bytes (List.replicate 3951 0x78)] htime
    (show (ascii "ERROR ").length = 6 from rfl)
  refine ⟨th', _, hrecord, fun hlast => ?_⟩
  have hroom := hend.mp hlast
  have htext : userText (someEnv true) someThread (.level .ERROR)
      [.bytes (List.replicate 3951 0x78)] = List.replicate 3951 0x78 := by
    have hheader : headerLength (someEnv true) someThread = 37 := rfl
    have hargs : (LoggerArgs.level .ERROR).insertions (someEnv true) = [] := rfl
    rw [userText, hargs, List.nil_append, hheader,
      kept_name (by rw [List.length_replicate]; omega), kept, List.append_nil]
  rw [htext] at hroom
  have hheader : headerLength (someEnv true) someThread = 37 := rfl
  have hname : (basename someFile).chars.length = 9 := rfl
  simp only [RoomForNewline, hheader, hname, List.length_replicate] at hroom
  omega

end Libanet
