import Libanet.Base.LogFile
import Libanet.Proofs.AppendFile
import Libanet.Proofs.DateTimeText

/-!
# What a `LogFile` does with its lines

A line goes into the current file before anything else happens, and a new file
is opened behind it or not at all: this is all there is to the lines staying
whole and in order. A file is opened only when the clock has passed the second
of the last one, so the seconds of the files grow, whatever the clock does in
between; and the name of a file tells its second, since the date in it is
digits up to the dash and can be read back.

`AppendStep` says what an `append` can do, and every part of the invariant is
read off it.
-/

namespace Libanet

/-! ## The name tells the second -/

theorem append_separator_inj {α : Type} {c : α} {a b x y : List α} (ha : c ∉ a) (hb : c ∉ b)
    (h : a ++ c :: x = b ++ c :: y) : a = b ∧ x = y := by
  induction a generalizing b with
  | nil =>
      cases b with
      | nil => exact ⟨rfl, List.tail_eq_of_cons_eq h⟩
      | cons e b =>
          obtain ⟨rfl, -⟩ := List.cons.inj h
          exact absurd List.mem_cons_self hb
  | cons d a ih =>
      rw [List.mem_cons, not_or] at ha
      cases b with
      | nil =>
          obtain ⟨rfl, -⟩ := List.cons.inj h
          exact absurd rfl ha.1
      | cons e b =>
          rw [List.mem_cons, not_or] at hb
          obtain ⟨rfl, htail⟩ := List.cons.inj h
          obtain ⟨rfl, hxy⟩ := ih ha.2 hb.2 htail
          exact ⟨rfl, hxy⟩

theorem decimalText_inj {v w : Int} (h : decimalText v = decimalText w) : v = w := by
  have hv := parseDecimal_decimalText v
  rw [h, parseDecimal_decimalText] at hv
  exact (Option.some.inj hv).symm

theorem gmtime_r_inj {t t' : Int} (h : gmtime_r t = gmtime_r t') : t = t' := by
  have hyear := congrArg DateTime.year h
  have hmonth := congrArg DateTime.month h
  have hday := congrArg DateTime.day h
  have hhour : t % 86400 / 3600 = t' % 86400 / 3600 := congrArg DateTime.hour h
  have hminute : t % 86400 / 60 % 60 = t' % 86400 / 60 % 60 := congrArg DateTime.minute h
  have hsecond : t % 86400 % 60 = t' % 86400 % 60 := congrArg DateTime.second h
  have hdate := GregorianDate.ext hyear hmonth hday
  have hnumber := congrArg GregorianDate.dayNumber hdate
  rw [GregorianDate.dayNumber_ofDayNumber, GregorianDate.dayNumber_ofDayNumber] at hnumber
  omega

/-- The parts of a time, as `strftime` is to print them. -/
structure Printable (tm : DateTime) : Prop where
  year : 0 ≤ tm.year
  month : 0 ≤ tm.month ∧ tm.month ≤ 99
  day : 0 ≤ tm.day ∧ tm.day ≤ 99
  hour : 0 ≤ tm.hour ∧ tm.hour ≤ 99
  minute : 0 ≤ tm.minute ∧ tm.minute ≤ 99
  second : 0 ≤ tm.second ∧ tm.second ≤ 99

theorem gmtime_r_printable {t : Int} (ht : 0 ≤ t) : Printable (gmtime_r t) := by
  obtain ⟨date, hdate⟩ : ∃ date, date = GregorianDate.ofDayNumber (t / 86400 + 719163) :=
    ⟨_, rfl⟩
  have hnumber : date.dayNumber = t / 86400 + 719163 := by
    rw [hdate, GregorianDate.dayNumber_ofDayNumber]
  have hyear : 0 ≤ date.year := by
    have hzero : daysBeforeYear 0 = -366 := by decide
    have hle := date.dayNumber_le_year
    by_contra hneg
    have hmono := daysBeforeYear_mono (show date.year + 1 ≤ 0 by omega)
    omega
  have hmonth := date.month_valid
  have hday := date.day_valid
  have hlength := monthLength_bounds date.year date.month
  have htm : gmtime_r t = ⟨date.year, date.month, date.day, t % 86400 / 3600,
      t % 86400 / 60 % 60, t % 86400 % 60⟩ := by
    rw [hdate]
    rfl
  rw [htm]
  constructor <;> dsimp only <;> omega

theorem not_dash_of_isDigit {text : List UInt8} (h : ∀ c ∈ text, IsDigit c) : 0x2d ∉ text :=
  fun hmem => absurd (h _ hmem) (by decide)

theorem Printable.isDigit_date {tm : DateTime} (h : Printable tm) :
    ∀ c ∈ decimalText tm.year ++ zeroPadded 2 tm.month ++ zeroPadded 2 tm.day, IsDigit c := by
  intro c hc
  rw [List.mem_append, List.mem_append] at hc
  rcases hc with (hc | hc) | hc
  · rw [decimalText, if_neg (Int.not_lt.mpr h.year)] at hc
    exact isDigit_decimalDigits _ c hc
  · exact isDigit_zeroPadded 2 h.month.1 c hc
  · exact isDigit_zeroPadded 2 h.day.1 c hc

/-- The text around the date and the time. -/
theorem timebuf_append (tm : DateTime) (rest : List UInt8) :
    timebuf tm ++ rest = 0x2e ::
      ((decimalText tm.year ++ zeroPadded 2 tm.month ++ zeroPadded 2 tm.day) ++ 0x2d ::
        (zeroPadded 2 tm.hour ++ zeroPadded 2 tm.minute ++ zeroPadded 2 tm.second ++
          0x2e :: rest)) := by
  simp only [timebuf, List.append_assoc]
  rfl

/-- The time can be read off a text that begins with it. -/
theorem Printable.timebuf_inj {tm tm' : DateTime} (h : Printable tm) (h' : Printable tm')
    {rest rest' : List UInt8} (htext : timebuf tm ++ rest = timebuf tm' ++ rest') : tm = tm' := by
  have hcolumn : ∀ {v w : Int}, 0 ≤ v ∧ v ≤ 99 → 0 ≤ w ∧ w ≤ 99 →
      (zeroPadded 2 v).length = (zeroPadded 2 w).length := by
    intro v w hv hw
    rw [DateTime.length_column hv, DateTime.length_column hw]
  rw [timebuf_append, timebuf_append] at htext
  obtain ⟨hdate, htime⟩ := append_separator_inj (not_dash_of_isDigit h.isDigit_date)
    (not_dash_of_isDigit h'.isDigit_date) (List.cons.inj htext).2
  -- the date, whose year may have any length
  obtain ⟨hdate, hday⟩ := List.append_inj' hdate (hcolumn h.day h'.day)
  obtain ⟨hyear, hmonth⟩ := List.append_inj' hdate (hcolumn h.month h'.month)
  -- and the time of day
  have hlength : (zeroPadded 2 tm.hour ++ zeroPadded 2 tm.minute ++ zeroPadded 2 tm.second).length
      = (zeroPadded 2 tm'.hour ++ zeroPadded 2 tm'.minute ++ zeroPadded 2 tm'.second).length := by
    simp only [List.length_append, hcolumn h.hour h'.hour, hcolumn h.minute h'.minute,
      hcolumn h.second h'.second]
  obtain ⟨htime, -⟩ := List.append_inj htime hlength
  obtain ⟨htime, hsecond⟩ := List.append_inj' htime (hcolumn h.second h'.second)
  obtain ⟨hhour, hminute⟩ := List.append_inj' htime (hcolumn h.minute h'.minute)
  have hy := decimalText_inj hyear
  have hmo := zeroPadded_inj h.month.1 h'.month.1 hmonth
  have hd := zeroPadded_inj h.day.1 h'.day.1 hday
  have hh := zeroPadded_inj h.hour.1 h'.hour.1 hhour
  have hmi := zeroPadded_inj h.minute.1 h'.minute.1 hminute
  have hs := zeroPadded_inj h.second.1 h'.second.1 hsecond
  cases tm
  cases tm'
  simp only at hy hmo hd hh hmi hs
  rw [hy, hmo, hd, hh, hmi, hs]

/-- Files of one log that were opened in different seconds have different
names, whatever the host and the process were called. -/
theorem getLogFileName_inj {basename : List UInt8} {env env' : NameEnv} (hpos : 0 < env.now)
    (hpos' : 0 < env'.now) (h : getLogFileName basename env = getLogFileName basename env') :
    env.now = env'.now := by
  have htext := List.append_cancel_left h
  exact gmtime_r_inj ((gmtime_r_printable (by omega)).timebuf_inj
    (gmtime_r_printable (by omega)) htext)

namespace LogFile

/-! ## What an `append` can do -/

/-- `rollFile`, when the clock has gone on. -/
def next (env : NameEnv) (s : LogFile) : LogFile :=
  { s with
    lastRoll := env.now
    lastFlush := env.now
    startOfPeriod := env.now.tdiv kRollPerSeconds * kRollPerSeconds
    file := some ⟨getLogFileName s.basename env, env.now, .new⟩
    closed := s.closed ++ (s.file.map OpenedFile.flush).toList }

/-- The clock is in another period than the current file. -/
def PeriodOver (now : Int) (s : LogFile) : Prop :=
  now.tdiv kRollPerSeconds * kRollPerSeconds ≠ s.startOfPeriod

/-- The current file has become `f`, which may have been flushed, and there may be
a new one behind it. -/
inductive AppendStep (s : LogFile) (f : OpenedFile) (now : Int) (env : NameEnv) : LogFile → Prop
  | stay (count : Int) : AppendStep s f now env { s with file := some f, count := count }
  | flush (count : Int) : AppendStep s f now env
      { s with file := some f.flush, count := count, lastFlush := now }
  | roll (count : Int) (later : s.lastRoll < env.now)
      (why : s.rollSize < f.file.writtenBytes ∨ s.PeriodOver now) :
      AppendStep s f now env (next env { s with file := some f, count := count })

theorem AppendStep.of_rollFile {s : LogFile} {f : OpenedFile} {now : Int} (env : NameEnv)
    (count : Int) (why : s.rollSize < f.file.writtenBytes ∨ s.PeriodOver now) :
    AppendStep s f now env
      (rollFile env { s with file := some f, count := count }).2 := by
  unfold rollFile
  dsimp only
  split
  · next later => exact .roll count later why
  · exact .stay count

theorem append_unlocked_spec {s : LogFile} {f : OpenedFile} (hf : s.file = some f)
    (logline : List UInt8) (fwrite : Fwrite) (now : Int) (env : NameEnv) :
    ∃ s', s.append_unlocked logline fwrite now env = .ok s' ∧
      AppendStep s { f with file := f.file.append fwrite logline } now env s' := by
  have hderef : s.deref = .ok f := by
    unfold deref
    rw [hf]
  unfold append_unlocked
  rw [hderef]
  by_cases hlong : ((f.file.append fwrite logline).writtenBytes : Int) > s.rollSize
  · refine ⟨_, if_pos hlong, .of_rollFile env s.count (.inl hlong)⟩
  · refine ⟨_, if_neg hlong, ?_⟩
    unfold checkPeriod
    dsimp only
    split
    · split
      · next hover => exact .of_rollFile env 0 (.inr hover)
      · split
        · exact .flush 0
        · exact .stay 0
    · exact .stay (s.count + 1)

/-! ## The files -/

/-- What is known of the files of a log, before the first one is opened and
ever after. -/
structure Inv (basename : List UInt8) (rollSize : Int) (s : LogFile) : Prop where
  basename_eq : s.basename = basename
  rollSize_eq : s.rollSize = rollSize
  period : s.startOfPeriod = s.lastRoll / 86400 * 86400
  current (f : OpenedFile) : s.file = some f → f.opened = s.lastRoll ∧ f.file.fp.error = false
  accounted (f : OpenedFile) : f ∈ s.files → f.file.Accounted
  named (f : OpenedFile) : f ∈ s.files → ∃ env : NameEnv,
    env.now = f.opened ∧ 0 < env.now ∧ f.name = getLogFileName basename env
  increasing : (s.files.map OpenedFile.opened).Pairwise (· < ·)
  opened_le (f : OpenedFile) : f ∈ s.files → f.opened ≤ s.lastRoll
  flushed (f : OpenedFile) : f ∈ s.closed → f.file.fp.Flushed

variable {basename : List UInt8} {rollSize : Int} {s t : LogFile}

theorem files_of_file {f : OpenedFile} (hf : s.file = some f) : s.files = s.closed ++ [f] := by
  rw [files, hf]
  rfl

theorem forall_mem_files {P : OpenedFile → Prop} {f : OpenedFile} (hf : s.file = some f) :
    (∀ g ∈ s.files, P g) ↔ (∀ g ∈ s.closed, P g) ∧ P f := by
  rw [files_of_file hf, List.forall_mem_append, List.forall_mem_singleton]

/-- The current file goes on as another. -/
theorem Inv.write (h : Inv basename rollSize s) {f f' : OpenedFile} (hf : s.file = some f)
    (hname : f'.name = f.name) (hopened : f'.opened = f.opened)
    (herror : f'.file.fp.error = false) (haccounted : f'.file.Accounted)
    (count lastFlush : Int) :
    Inv basename rollSize { s with file := some f', count := count, lastFlush := lastFlush } := by
  have hclosed := fun {P : OpenedFile → Prop} => (forall_mem_files (P := P) hf).mp
  refine ⟨h.basename_eq, h.rollSize_eq, h.period, ?_, ?_, ?_, ?_, ?_, h.flushed⟩
  · intro g hg
    cases hg
    exact ⟨hopened.trans (h.current f hf).1, herror⟩
  · exact (forall_mem_files rfl).mpr ⟨(hclosed h.accounted).1, haccounted⟩
  · refine (forall_mem_files rfl).mpr ⟨(hclosed h.named).1, ?_⟩
    rw [hname, hopened]
    exact (hclosed h.named).2
  · have hincreasing := h.increasing
    rw [files_of_file hf, List.map_append, List.map_singleton, ← hopened] at hincreasing
    rw [files_of_file rfl, List.map_append, List.map_singleton]
    exact hincreasing
  · refine (forall_mem_files rfl).mpr ⟨(hclosed h.opened_le).1, ?_⟩
    rw [hopened]
    exact (hclosed h.opened_le).2

theorem Inv.flush (h : Inv basename rollSize s) {f : OpenedFile} (hf : s.file = some f)
    (count lastFlush : Int) : Inv basename rollSize
      { s with file := some f.flush, count := count, lastFlush := lastFlush } := by
  have hname : f.flush.name = f.name := rfl
  have herror : f.flush.file.fp.error = false := (h.current f hf).2
  have haccounted : f.flush.file.Accounted := ((forall_mem_files hf).mp h.accounted).2
  exact h.write hf hname rfl herror haccounted count lastFlush

/-- If there is one, it is flushed. -/
theorem Inv.flushFile (h : Inv basename rollSize s) :
    Inv basename rollSize { s with file := s.file.map OpenedFile.flush } := by
  cases hf : s.file with
  | none =>
      rw [Option.map_none, ← hf]
      exact h
  | some f => exact h.flush hf s.count s.lastFlush

/-- A file is opened behind it. -/
theorem Inv.next (h : Inv basename rollSize s) {env : NameEnv} (hpos : 0 < env.now)
    (later : s.lastRoll < env.now) : Inv basename rollSize (s.next env) := by
  have hclosed : ∀ g ∈ (s.next env).closed, g.file.fp.Flushed := by
    intro g hg
    rcases List.mem_append.mp hg with hg | hg
    · exact h.flushed g hg
    · obtain ⟨f, -, rfl⟩ := Option.map_eq_some_iff.mp (Option.mem_toList.mp hg)
      exact FILE.flushed_fflush _
  replace h := h.flushFile
  refine ⟨h.basename_eq, h.rollSize_eq, ?_, ?_, ?_, ?_, ?_, ?_, hclosed⟩
  · show env.now.tdiv 86400 * 86400 = env.now / 86400 * 86400
    rw [Int.tdiv_eq_ediv_of_nonneg (by omega)]
  · intro g hg
    cases hg
    exact ⟨rfl, rfl⟩
  · exact (forall_mem_files rfl).mpr ⟨h.accounted, AppendFile.accounted_new⟩
  · exact (forall_mem_files rfl).mpr
      ⟨h.named, env, rfl, hpos, by rw [← h.basename_eq]⟩
  · rw [files_of_file rfl, List.map_append, List.pairwise_append]
    refine ⟨h.increasing, List.pairwise_singleton _ _, ?_⟩
    intro a ha b hb
    obtain ⟨g, hg, rfl⟩ := List.mem_map.mp ha
    rw [List.mem_singleton.mp hb]
    exact Int.lt_of_le_of_lt (h.opened_le g hg) later
  · refine (forall_mem_files rfl).mpr ⟨?_, Int.le_refl _⟩
    intro g hg
    exact Int.le_of_lt (Int.lt_of_le_of_lt (h.opened_le g hg) later)

/-! ## The lines in them -/

/-- The files have taken the lines, each of them in one and in order. -/
def Holds (lines : List (List UInt8)) (s : LogFile) : Prop :=
  ∃ (before : List (List (List UInt8))) (current : List (List UInt8)),
    s.closed.map OpenedFile.bytes = before.map List.flatten ∧
    s.file.map OpenedFile.bytes = some current.flatten ∧ before.flatten ++ current = lines

theorem Holds.write {lines : List (List UInt8)} (h : Holds lines s) {f f' : OpenedFile}
    (hf : s.file = some f) {logline : List UInt8} (hbytes : f'.bytes = f.bytes ++ logline)
    (count lastFlush : Int) : Holds (lines ++ [logline])
      { s with file := some f', count := count, lastFlush := lastFlush } := by
  obtain ⟨before, current, hclosed, hcurrent, rfl⟩ := h
  rw [hf] at hcurrent
  have hf' : f.bytes = current.flatten := Option.some.inj hcurrent
  refine ⟨before, current ++ [logline], hclosed, ?_, (List.append_assoc _ _ _).symm⟩
  show some f'.bytes = _
  rw [hbytes, hf', List.flatten_append, List.flatten_singleton]

theorem Holds.flush {lines : List (List UInt8)} (h : Holds lines s) {f : OpenedFile}
    (hf : s.file = some f) (count lastFlush : Int) :
    Holds lines { s with file := some f.flush, count := count, lastFlush := lastFlush } := by
  obtain ⟨before, current, hclosed, hcurrent, rfl⟩ := h
  rw [hf] at hcurrent
  exact ⟨before, current, hclosed, hcurrent, rfl⟩

theorem Holds.next {lines : List (List UInt8)} (h : Holds lines s) (env : NameEnv) :
    Holds lines (s.next env) := by
  obtain ⟨before, current, hclosed, hcurrent, rfl⟩ := h
  obtain ⟨f, hf, hbytes⟩ := Option.map_eq_some_iff.mp hcurrent
  refine ⟨before ++ [current], [], ?_, rfl, ?_⟩
  · show (s.closed ++ (s.file.map OpenedFile.flush).toList).map OpenedFile.bytes = _
    rw [hf, List.map_append, hclosed, List.map_append]
    show _ ++ [f.bytes] = _
    rw [hbytes]
    rfl
  · rw [List.flatten_append, List.flatten_singleton, List.append_nil]

end LogFile

/-! ## Steps and runs -/

namespace LogFileAction

/-- The line that is appended. -/
def lines : LogFileAction → List (List UInt8)
  | .append logline _ _ _ _ _ _ => [logline]
  | .flush => []

/-- The action reads the clock in another period than the current file's. -/
def PeriodOver (s : LogFile) : LogFileAction → Prop
  | .append _ _ _ now _ _ _ => s.PeriodOver now
  | .flush => False

end LogFileAction

namespace LogFile

variable {basename : List UInt8} {rollSize : Int} {s t : LogFile}

/-- The invariant, with the first file opened and the lines so far in the files. -/
structure Kept (basename : List UInt8) (rollSize : Int) (lines : List (List UInt8))
    (s : LogFile) : Prop where
  inv : Inv basename rollSize s
  holds : Holds lines s

theorem Kept.file {lines : List (List UInt8)} (h : Kept basename rollSize lines s) :
    ∃ f, s.file = some f := by
  obtain ⟨-, current, -, hcurrent, -⟩ := h.holds
  obtain ⟨f, hf, -⟩ := Option.map_eq_some_iff.mp hcurrent
  exact ⟨f, hf⟩

/-- A file that is closed has become too long, or its period is over. -/
def Closes (rollSize : Int) : LogFile × LogFileAction × LogFile → OpenedFile → Prop
  | (s, a, t), f => t.closed = s.closed ++ [f] ∧
      (rollSize < f.bytes.length ∨ a.PeriodOver s)

/-- All that the files have taken is in them. -/
def AllFlushed (s : LogFile) : Prop := ∀ f ∈ s.files, f.file.fp.Flushed

theorem Kept.flush {lines : List (List UInt8)} (h : Kept basename rollSize lines s) :
    ∃ t, s.flush = .ok t ∧ Kept basename rollSize lines t ∧ t.AllFlushed ∧
      t.closed = s.closed := by
  obtain ⟨f, hf⟩ := h.file
  have hderef : s.deref = .ok f := by
    unfold deref
    rw [hf]
  have hkept : Kept basename rollSize lines { s with file := some f.flush } :=
    ⟨h.inv.flush hf s.count s.lastFlush, h.holds.flush hf s.count s.lastFlush⟩
  refine ⟨_, bind_eq_ok.mpr ⟨f, hderef, rfl⟩, hkept, ?_, rfl⟩
  exact (forall_mem_files rfl).mpr ⟨hkept.inv.flushed, FILE.flushed_fflush _⟩

theorem Kept.step {lines : List (List UInt8)} (h : Kept basename rollSize lines s)
    (a : LogFileAction) : ∃ t, exec a s = .ok t ∧ Kept basename rollSize (lines ++ a.lines) t ∧
      ∀ f ∈ t.closed, f ∈ s.closed ∨ Closes rollSize (s, a, t) f := by
  obtain ⟨f, hf⟩ := h.file
  cases a with
  | flush =>
      obtain ⟨t, ht, hkept, -, hclosed⟩ := h.flush
      refine ⟨t, ht, ?_, fun g hg => Or.inl (hclosed ▸ hg)⟩
      rw [LogFileAction.lines, List.append_nil]
      exact hkept
  | append logline fwrite noErrors now now_pos env env_pos =>
      obtain ⟨t, hok, hstep⟩ := append_unlocked_spec hf logline fwrite now env
      obtain ⟨f', hf'⟩ : ∃ f' : OpenedFile,
          f' = { f with file := f.file.append fwrite logline } := ⟨_, rfl⟩
      rw [← hf'] at hstep
      obtain ⟨hfp, hcount⟩ := AppendFile.append_noErrors noErrors (h.inv.current f hf).2 logline
      have haccounted := ((forall_mem_files hf).mp h.inv.accounted).2
      have hbytes : f'.bytes = f.bytes ++ logline := by
        rw [hf', OpenedFile.bytes, hfp, OpenedFile.bytes]
      have herror : f'.file.fp.error = false := by rw [hf', hfp]
      have haccounted' : f'.file.Accounted := by
        rw [hf', AppendFile.Accounted, hcount, hfp, List.length_append, haccounted]
      have hinv := h.inv.write hf (by rw [hf']) (by rw [hf']) herror haccounted'
      have hholds := h.holds.write hf hbytes
      refine ⟨t, hok, ?_⟩
      cases hstep with
      | stay count =>
          exact ⟨⟨hinv count s.lastFlush, hholds count s.lastFlush⟩, fun g hg => Or.inl hg⟩
      | flush count =>
          refine ⟨⟨?_, ?_⟩, fun g hg => Or.inl hg⟩
          · exact (hinv count now).flush (f := f') rfl count now
          · exact (hholds count now).flush (f := f') rfl count now
      | roll count later why =>
          refine ⟨⟨(hinv count s.lastFlush).next env_pos later,
            (hholds count s.lastFlush).next env⟩, ?_⟩
          intro g hg
          rcases List.mem_append.mp hg with hg | hg
          · exact Or.inl hg
          · rw [Option.map_some, Option.toList_some, List.mem_singleton] at hg
            refine Or.inr ⟨by rw [hg]; rfl, ?_⟩
            have hsame : f'.flush.bytes = f'.bytes := rfl
            rw [← h.inv.rollSize_eq, hg, hsame, OpenedFile.bytes, ← haccounted']
            exact why

variable {flushInterval checkEveryN : Int} {env : NameEnv} {s₀ : LogFile}

/-- The constructor opens the first file. -/
theorem Kept.of_new (hpos : 0 < env.now)
    (hnew : new basename rollSize flushInterval checkEveryN env = .ok s₀) :
    Kept basename rollSize [] s₀ ∧ s₀.closed = [] ∧ s₀.AllFlushed := by
  obtain ⟨-, hnew⟩ := assertThat_bind_eq_ok.mp hnew
  have hroll := Except.ok.inj hnew
  have hlater : env.now > 0 := hpos
  unfold rollFile at hroll
  simp only [if_pos hlater] at hroll
  subst hroll
  refine ⟨⟨Inv.next (s := ⟨basename, rollSize, flushInterval, checkEveryN, 0, 0, 0, 0, none, []⟩)
    ?_ hpos hpos, [], [], rfl, rfl, rfl⟩, rfl, ?_⟩
  · constructor
    · rfl
    · rfl
    · rfl
    · intro f hf
      cases hf
    · intro f hf
      cases hf
    · intro f hf
      cases hf
    · exact List.Pairwise.nil
    · intro f hf
      cases hf
    · intro f hf
      cases hf
  · intro f hf
    cases List.mem_singleton.mp hf
    rfl

theorem Kept.names_nodup {lines : List (List UInt8)} (h : Kept basename rollSize lines s) :
    (s.files.map OpenedFile.name).Nodup := by
  have hincreasing := List.pairwise_map.mp h.inv.increasing
  rw [List.Nodup, List.pairwise_map]
  refine hincreasing.imp_of_mem ?_
  intro f g hf hg hlt hname
  obtain ⟨env, hnow, hpos, henv⟩ := h.inv.named f hf
  obtain ⟨env', hnow', hpos', henv'⟩ := h.inv.named g hg
  rw [henv, henv'] at hname
  have hsame := getLogFileName_inj hpos hpos' hname
  omega

/-! ## What a reader finds -/

section

variable {content : OpenedFile → List UInt8}

theorem content_of_flushed {fs : List OpenedFile} (hfs : ∀ f ∈ fs, f.file.fp.Flushed)
    (hc : ∀ f ∈ fs, f.MayHold (content f)) : fs.map content = fs.map OpenedFile.bytes :=
  List.map_congr_left fun f hf => (hfs f hf).eq_of_mayHold (hc f hf)

/-- Only the last file can be without the end of what it has taken. -/
theorem Inv.content_prefix (h : Inv basename rollSize s)
    (hc : ∀ f ∈ s.files, f.MayHold (content f)) :
    (s.files.map content).flatten <+: (s.files.map OpenedFile.bytes).flatten := by
  cases hf : s.file with
  | none =>
      have hfiles : s.files = s.closed := by
        rw [files, hf]
        exact List.append_nil _
      rw [hfiles] at hc ⊢
      exact congrArg List.flatten (content_of_flushed h.flushed hc) ▸ List.prefix_rfl
  | some f =>
      obtain ⟨hclosed, hlast⟩ := (forall_mem_files hf).mp hc
      have hend : content f <+: f.bytes := hlast.2
      rw [files_of_file hf, List.map_append, List.map_append, content_of_flushed h.flushed hclosed,
        List.flatten_append, List.flatten_append, List.map_singleton, List.map_singleton,
        List.flatten_singleton, List.flatten_singleton]
      exact (List.prefix_append_right_inj _).mpr hend

end

/-- A log at any time after it was made. -/
def Running (basename : List UInt8) (rollSize : Int) (s : LogFile) : Prop :=
  ∃ lines, Kept basename rollSize lines s

theorem Running.step (h : Running basename rollSize s) (a : LogFileAction) :
    ∃ t, machine.step a s = some t ∧ Running basename rollSize t := by
  obtain ⟨lines, h⟩ := h
  obtain ⟨t, he, h', -⟩ := h.step a
  exact ⟨t, Machine.step_eq_some.mpr ⟨rfl, he⟩, _, h'⟩

theorem Running.closes (h : Running basename rollSize s) {a : LogFileAction}
    (he : exec a s = .ok t) : Running basename rollSize t ∧
      ∀ f ∈ t.closed, f ∈ s.closed ∨ Closes rollSize (s, a, t) f := by
  obtain ⟨lines, h⟩ := h
  obtain ⟨t', he', h', hclosed⟩ := h.step a
  cases he.symm.trans he'
  exact ⟨⟨_, h'⟩, hclosed⟩

theorem Kept.run (h : Kept basename rollSize [] s₀) {as : List LogFileAction}
    (hr : machine.run as s₀ = some s) :
    Kept basename rollSize (as.flatMap LogFileAction.lines) s := by
  have h₀ : Kept basename rollSize (([] : List LogFileAction).flatMap LogFileAction.lines) s₀ := h
  refine Machine.run_history (m := machine) (I := fun done s =>
    Kept basename rollSize (done.flatMap LogFileAction.lines) s) ?_ h₀ hr
  intro done s t a h hg he
  obtain ⟨t', he', h', -⟩ := h.step a
  cases he.symm.trans he'
  rw [List.flatMap_append, List.flatMap_singleton]
  exact h'

/-- Every sequence of lines, whatever the clock says: it is written without a
fault; each line is in one file, and the files in their order are the lines in
theirs; the seconds of the files grow, and no two have the same name;
`startOfPeriod_` is the day of `lastRoll_`; and every file but the last was
closed because it had become too long, or by an `append` that read the clock in
another period than the file's. -/
theorem lines_whole_in_files (hpos : 0 < env.now)
    (hnew : new basename rollSize flushInterval checkEveryN env = .ok s₀)
    (as : List LogFileAction) : ∃ s, machine.run as s₀ = some s ∧
      (∃ groups : List (List (List UInt8)),
        s.files.map OpenedFile.bytes = groups.map List.flatten ∧
          groups.flatten = as.flatMap LogFileAction.lines) ∧
      (s.files.map OpenedFile.opened).Pairwise (· < ·) ∧
      (s.files.map OpenedFile.opened).getLast? = some s.lastRoll ∧
      (s.files.map OpenedFile.name).Nodup ∧
      s.startOfPeriod = s.lastRoll / 86400 * 86400 ∧
      ∀ f ∈ s.files.dropLast, ∃ x ∈ machine.steps as s₀, Closes rollSize x f := by
  obtain ⟨h₀, hclosed₀, -⟩ := Kept.of_new hpos hnew
  have hrunning₀ : Running basename rollSize s₀ := ⟨[], h₀⟩
  obtain ⟨s, hr, -⟩ := Machine.run_total (fun h => Running.step h _) as hrunning₀
  have h := h₀.run hr
  have horigin := Machine.run_origin (fun h _ he => (Running.closes h he).1)
    (fun h _ he => (Running.closes h he).2) hrunning₀ hr
  obtain ⟨f, hf⟩ := h.file
  refine ⟨s, hr, ?_, h.inv.increasing, ?_, h.names_nodup, h.inv.period, ?_⟩
  · obtain ⟨before, current, hclosed, hcurrent, hlines⟩ := h.holds
    rw [hf] at hcurrent
    refine ⟨before ++ [current], ?_, ?_⟩
    · rw [files_of_file hf, List.map_append, hclosed, List.map_append, List.map_singleton,
        Option.some.inj hcurrent, List.map_singleton]
    · rw [List.flatten_append, List.flatten_singleton]
      exact hlines
  · rw [files_of_file hf, List.map_append, List.map_singleton, List.getLast?_concat,
      (h.inv.current f hf).1]
  · rw [files_of_file hf, List.dropLast_concat]
    intro g hg
    rcases horigin g hg with hold | hstep
    · rw [hclosed₀] at hold
      cases hold
    · exact hstep

/-- A stream that takes all it is offered. -/
def takesAll : Fwrite := fun _ data error =>
  { n := data.length
    ferror := error
    n_le := Nat.le_refl _
    sticky := id
    progress := fun h => absurd h (Nat.lt_irrefl _) }

theorem takesAll_noErrors : takesAll.NoErrors := fun _ _ => rfl

/-- The name's clock is behind the one that found the day to be over, so that
the file goes on into the next day; then one line is too long. -/
def overMidnight : List LogFileAction :=
  [.append (ascii "a") takesAll takesAll_noErrors 86400 (by decide) ⟨86399, [], 7⟩ (by decide),
    .append (ascii "bcdefghijk") takesAll takesAll_noErrors 86401 (by decide) ⟨86401, [], 7⟩
      (by decide),
    .append (ascii "l") takesAll takesAll_noErrors 86401 (by decide) ⟨86401, [], 7⟩ (by decide)]

theorem lines_whole_in_files_overMidnight :
    ∃ s₀ s, new (ascii "log") 10 3 1 ⟨86399, ascii "host", 7⟩ = .ok s₀ ∧
      machine.run overMidnight s₀ = some s ∧
      (∃ groups : List (List (List UInt8)),
        s.files.map OpenedFile.bytes = groups.map List.flatten ∧
          groups.flatten = [ascii "a", ascii "bcdefghijk", ascii "l"]) ∧
      (s.files.map OpenedFile.name).Nodup := by
  obtain ⟨s₀, hnew⟩ : ∃ s₀, new (ascii "log") 10 3 1 ⟨86399, ascii "host", 7⟩ = .ok s₀ :=
    ⟨_, rfl⟩
  obtain ⟨s, hr, hgroups, -, -, hnames, -⟩ := lines_whole_in_files (by decide) hnew overMidnight
  exact ⟨s₀, s, hnew, hr, hgroups, hnames⟩

end LogFile

end Libanet
