import Libanet.Proofs.LogRecord

/-!
# The cached time of a log record

A thread formats the seconds of a record only if they are not those of its
last one. What it keeps is a second and a text, but the text depends on the
zone too, and the second of a thread that has kept nothing is the first of the
epoch, for which there is no text.

`Cached` says what is kept: nothing yet, or the time of the second in the zone
it was made in, which may no longer be the zone of the log. So the text put
into a record is that of its own second and zone if it has just been made, or
if it was made in a zone that has the same offset at this second. It is never
right otherwise, since different times have different texts. And a text with
one byte more than is taken of it, from the year 10000 of the zone on, is not
right in any case.
-/

namespace Libanet

/-! ## Zones -/

theorem ZoneData.findLocalTime_mem {d : ZoneData} {t : Int} {lt : LocalTime}
    (h : d.findLocalTime t = .ok lt) : lt ∈ d.localtimes := by
  have hindex : ∀ {i : Nat}, index d.localtimes i = .ok lt → lt ∈ d.localtimes := by
    intro i hi
    unfold index at hi
    split at hi
    · next x hx =>
        cases hi
        exact List.mem_of_getElem? hx
    · cases hi
  unfold findLocalTime at h
  split at h
  · exact hindex h
  · split at h
    · exact hindex h
    · obtain ⟨-, h⟩ := assertThat_bind_eq_ok.mp h
      split at h
      · obtain ⟨trans, -, h⟩ := bind_eq_ok.mp h
        exact hindex h
      · obtain ⟨trans, -, h⟩ := bind_eq_ok.mp h
        exact hindex h

/-- The zone of a table that is in order. -/
def ZoneData.Valid.logZone {d : ZoneData} (hv : d.Valid) : LogZone where
  zone := ⟨some d⟩
  answers := by
    intro d' hd t _
    cases hd
    obtain ⟨lt, hlt, -⟩ := hv.findLocalTime_eq t
    exact ⟨lt, hlt, hv.offset lt (ZoneData.findLocalTime_mem hlt)⟩

namespace LogZone

variable {z : LogZone} {t : Int}

theorem offset_of_none (h : z.zone.data = none) : z.offset t = 0 := by
  rw [offset, h]
  rfl

theorem offset_of_some {d : ZoneData} {lt : LocalTime} (h : z.zone.data = some d)
    (hlt : d.findLocalTime t = .ok lt) : z.offset t = lt.utcOffset := by
  rw [offset, h, Option.bind_some, hlt]
  rfl

/-- The second on the clock of the zone. -/
theorem shown (h : LogSecond t) : ShownSecond (t + z.offset t) := by
  have hfits : Fits 32 (z.offset t) := by
    cases hdata : z.zone.data with
    | none =>
        rw [offset_of_none hdata]
        decide
    | some d =>
        obtain ⟨lt, hlt, hfits⟩ := z.answers d hdata t h
        rw [offset_of_some hdata hlt]
        exact hfits
  rw [fits_int] at hfits
  obtain ⟨hl, hu⟩ := h
  constructor <;> omega

end LogZone

/-! ## What is kept -/

/-- Nothing, or the time of a second in a zone. -/
inductive Cached : LogThread → Option LogZone → Prop where
  | nothing (tid : Int) : Cached { tid } none
  | time {th : LogThread} {z : LogZone} {dt : DateTime} (range : LogSecond th.lastSecond)
      (made : BreakTime (th.lastSecond + z.offset th.lastSecond) = .ok dt)
      (text : th.time = formatDateTime dt) : Cached th (some z)

/-! ## Taking 17 bytes -/

theorem T_eq_ok {debug : Bool} {str text : List UInt8} {len : Nat} :
    T debug str len = .ok text ↔
      (debug = true → str.length = len) ∧ (str ++ List.replicate len 0).take len = text := by
  cases debug with
  | false =>
      show Except.ok _ = Except.ok _ ↔ _
      simp
  | true =>
      show (assertThat (str.length = len) >>= fun _ => _) = _ ↔ _
      rw [assertThat_bind_eq_ok]
      simp [pure, Except.pure]

theorem length_T {debug : Bool} {str text : List UInt8} {len : Nat}
    (h : T debug str len = .ok text) : text.length = len := by
  obtain ⟨-, rfl⟩ := T_eq_ok.mp h
  rw [List.length_take, List.length_append, List.length_replicate]
  omega

/-- What there is not is not the text of a time. -/
theorem T_nil_ne (debug : Bool) (dt : DateTime) : T debug [] 17 ≠ .ok (formatDateTime dt) := by
  intro h
  obtain ⟨-, htext⟩ := T_eq_ok.mp h
  have hzero : (0 : UInt8) ∈ formatDateTime dt := by
    rw [← htext]
    decide
  exact noNul_formatDateTime dt hzero

/-- The text of one time is that of another only if they are the same. -/
theorem T_formatDateTime_iff {debug : Bool} {made dt : DateTime} (hmade : made.InColumns)
    (hdt : dt.InColumns) (hyear : dt.year ≤ 9999) :
    T debug (formatDateTime made) 17 = .ok (formatDateTime dt) ↔ made = dt := by
  have hlength := hmade.length_formatDateTime
  constructor
  · intro h
    by_cases hfour : made.year ≤ 9999
    · rw [if_pos hfour] at hlength
      rw [T_of debug hlength] at h
      exact hmade.formatDateTime_inj hdt (Except.ok.inj h)
    · rw [if_neg hfour] at hlength
      obtain ⟨-, htext⟩ := T_eq_ok.mp h
      rw [List.take_append_of_le_length (by omega)] at htext
      exact absurd htext (hmade.take_ne hdt (Int.not_le.mp hfour) hyear)
  · rintro rfl
    rw [if_pos hyear] at hlength
    exact T_of debug hlength

theorem data_time {time us : List UInt8} (htime : time.length = 17) (hus : us.length ≤ 9) :
    ((LogStream.new.append time).append us).buffer.data = time ++ us := by
  have hnew : LogStream.new.buffer.avail = 4000 := rfl
  have hdata : (LogStream.new.append time).buffer.data = time := by
    rw [LogStream.data_append, hnew, if_pos (by omega)]
    rfl
  have havail : (LogStream.new.append time).buffer.avail = 3983 := by
    show 4000 - (LogStream.new.append time).buffer.data.length = 3983
    rw [hdata, htime]
  rw [LogStream.data_append, havail, if_pos (by omega), hdata]

namespace LogWriter

/-! ## A record -/

/-- The second of a record. -/
def second (now : Timestamp) : Int := now.tdiv Timestamp.kMicroSecondsPerSecond

/-- What is put into a record is the time of its second in the zone of the log. -/
def TimeRight (debug : Bool) (s : LogWriter) : WriterAction → Prop
  | .setTimeZone _ => True
  | .log now _ => ∃ dt th stream,
      Logger.dateTime (s.env debug now) (second now) = .ok dt ∧
      Logger.formatTime (s.env debug now) s.thread .new = .ok (th, stream) ∧
      stream.buffer.data = formatDateTime dt ++ (s.env debug now).us

/-- The year in the zone has four digits, and the time is made anew, or was made
in a zone with the same offset. -/
def TimeFits (s : LogWriter) : WriterAction → Prop
  | .setTimeZone _ => True
  | .log now _ =>
      second now + s.logTimeZone.offset (second now) < 253402300800 ∧
        (second now ≠ s.thread.lastSecond ∨
          ∃ z, s.madeIn = some z ∧ z.offset (second now) = s.logTimeZone.offset (second now))

variable {debug : Bool} {now : Timestamp} {s t : LogWriter}

theorem second_range {now : Int}
    (range : 0 ≤ now ∧ now < 253402300800 * Timestamp.kMicroSecondsPerSecond) :
    LogSecond (second now) := by
  obtain ⟨hl, hu⟩ : 0 ≤ now ∧ now < 253402300800 * 1000000 := range
  have hdiv : second now = now / 1000000 := Int.tdiv_eq_ediv_of_nonneg hl
  rw [LogSecond, hdiv]
  omega

theorem dateTime_eq (h : LogSecond (second now)) :
    Logger.dateTime (s.env debug now) (second now) =
      BreakTime (second now + s.logTimeZone.offset (second now)) := by
  have hshown := LogZone.shown (z := s.logTimeZone) h
  cases hdata : s.logTimeZone.zone.data with
  | none =>
      rw [LogZone.offset_of_none hdata, Int.add_zero]
      exact dateTime_of_none hdata (second now)
  | some d =>
      obtain ⟨lt, hlt, -⟩ := s.logTimeZone.answers d hdata _ h
      rw [LogZone.offset_of_some hdata hlt] at hshown ⊢
      obtain ⟨hl, hu⟩ := hshown
      exact dateTime_of_some hdata hlt (fits_long.mpr (by omega))

theorem timeRight_iff
    {range : 0 ≤ now ∧ now < 253402300800 * Timestamp.kMicroSecondsPerSecond} :
    s.TimeRight debug (.log now range) ↔ ∃ dt th,
      Logger.dateTime (s.env debug now) (second now) = .ok dt ∧
      Logger.formatSeconds (s.env debug now) (second now) s.thread = .ok th ∧
      T debug th.time 17 = .ok (formatDateTime dt) := by
  have hus : (s.env debug now).us.length ≤ 9 := by
    rw [LogEnv.length_us range.1, LogEnv.usLength]
    split <;> decide
  constructor
  · rintro ⟨dt, th, stream, hdt, hformat, hdata⟩
    rw [formatTime_eq range.1] at hformat
    obtain ⟨th', hth, hformat⟩ := bind_eq_ok.mp hformat
    obtain ⟨time, htime, hformat⟩ := bind_eq_ok.mp hformat
    cases hformat
    rw [data_time (length_T htime) hus] at hdata
    rw [List.append_cancel_right hdata] at htime
    exact ⟨dt, th, hdt, hth, htime⟩
  · rintro ⟨dt, th, hdt, hth, htime⟩
    refine ⟨dt, th, _, hdt, ?_, data_time (length_T htime) hus⟩
    rw [formatTime_eq range.1]
    exact bind_eq_ok.mpr ⟨th, hth, bind_eq_ok.mpr ⟨_, htime, rfl⟩⟩

/-- The time of a second in the zone of the log. -/
theorem dateTime_ok (debug : Bool) (s : LogWriter) (h : LogSecond (second now)) :
    ∃ dt, Logger.dateTime (s.env debug now) (second now) = .ok dt ∧ dt.InColumns ∧
      BreakTime (second now + s.logTimeZone.offset (second now)) = .ok dt ∧
      (dt.year ≤ 9999 ↔ second now + s.logTimeZone.offset (second now) < 253402300800) := by
  obtain ⟨dt, hdt, hcolumns, hyear⟩ := (LogZone.shown (z := s.logTimeZone) h).breakTime
  exact ⟨dt, (dateTime_eq h).trans hdt, hcolumns, hdt, hyear⟩

theorem formatSeconds_same (h : second now = s.thread.lastSecond) :
    Logger.formatSeconds (s.env debug now) (second now) s.thread = .ok s.thread :=
  if_neg (not_not.mpr h)

/-- The text is as long as it should be, or the assert fails. -/
theorem formatSeconds_new {dt : DateTime} (hnew : second now ≠ s.thread.lastSecond)
    (hdt : Logger.dateTime (s.env debug now) (second now) = .ok dt) (hcolumns : dt.InColumns) :
    Logger.formatSeconds (s.env debug now) (second now) s.thread = (do
      assertIn debug ((formatDateTime dt).length = 17)
      return { s.thread with lastSecond := second now, time := formatDateTime dt }) := by
  have hle : (formatDateTime dt).length ≤ 63 := by
    rw [hcolumns.length_formatDateTime]
    split <;> decide
  exact formatSeconds_of_ne hnew hdt hle

/-- What is kept in a writer. -/
def Keeps (s : LogWriter) : Prop := Cached s.thread s.madeIn

theorem keeps_start (tid : Int) : Keeps { thread := { tid } } := .nothing tid

/-- One record. -/
theorem keeps_log (hs : s.Keeps)
    (range : 0 ≤ now ∧ now < 253402300800 * Timestamp.kMicroSecondsPerSecond)
    (h : s.log debug now = .ok t) : t.Keeps := by
  obtain ⟨⟨th, stream⟩, hformat, ht⟩ := bind_eq_ok.mp h
  cases ht
  rw [formatTime_eq range.1] at hformat
  obtain ⟨th', hth, hformat⟩ := bind_eq_ok.mp hformat
  obtain ⟨time, -, hformat⟩ := bind_eq_ok.mp hformat
  cases hformat
  have hrange := second_range range
  by_cases hnew : second now = s.thread.lastSecond
  · cases (formatSeconds_same hnew).symm.trans hth
    rw [Keeps]
    dsimp only
    rw [if_pos rfl]
    exact hs
  · obtain ⟨dt, hdt, hcolumns, hmade, -⟩ := dateTime_ok debug s hrange
    obtain ⟨-, -, hth'⟩ := bind_eq_ok.mp ((formatSeconds_new hnew hdt hcolumns).symm.trans hth)
    cases hth'
    rw [Keeps]
    dsimp only
    rw [if_neg hnew]
    exact .time hrange hmade rfl

theorem keeps_exec {a : WriterAction} (hs : s.Keeps) (h : (logWriter debug).exec a s = .ok t) :
    t.Keeps := by
  cases a with
  | setTimeZone tz =>
      cases h
      exact hs
  | log now range => exact keeps_log hs range h

/-- The text that is kept is that of a second exactly if it was made in a zone
with the same offset. -/
theorem cached_iff (debug : Bool) (hs : s.Keeps) {dt : DateTime} (hcolumns : dt.InColumns)
    (hyear : dt.year ≤ 9999)
    (hdt : BreakTime (s.thread.lastSecond + s.logTimeZone.offset s.thread.lastSecond) = .ok dt) :
    T debug s.thread.time 17 = .ok (formatDateTime dt) ↔
      ∃ z, s.madeIn = some z ∧
        z.offset s.thread.lastSecond = s.logTimeZone.offset s.thread.lastSecond := by
  obtain ⟨thread, zone, madeIn⟩ := s
  cases hs with
  | nothing tid =>
      refine iff_of_false (T_nil_ne debug dt) ?_
      rintro ⟨z, hz, -⟩
      cases hz
  | @time _ z made range hmade text =>
      obtain ⟨made', hmade', hcolumns', -⟩ := (LogZone.shown (z := z) range).breakTime
      cases hmade.symm.trans hmade'
      dsimp only at hdt ⊢
      rw [text, T_formatDateTime_iff hcolumns' hcolumns hyear]
      constructor
      · rintro rfl
        have hsame := BreakTime_inj (LogZone.shown range).handled (LogZone.shown range).handled
          (hmade.trans hdt.symm)
        exact ⟨z, rfl, Int.add_left_cancel hsame⟩
      · rintro ⟨z', hz, hoffset⟩
        cases hz
        rw [hoffset, hdt] at hmade
        exact (Except.ok.inj hmade).symm

/-- The time of a record is right exactly if it is made in its zone and with
four digits of the year. -/
theorem timeRight_iff_timeFits (hs : s.Keeps) (a : WriterAction) :
    s.TimeRight debug a ↔ s.TimeFits a := by
  cases a with
  | setTimeZone tz => exact Iff.rfl
  | log now range =>
      have hrange := second_range range
      obtain ⟨dt, hdt, hcolumns, hmade, hyear⟩ := dateTime_ok debug s hrange
      have hlength := hcolumns.length_formatDateTime
      rw [timeRight_iff, TimeFits, ← hyear]
      by_cases hfour : dt.year ≤ 9999
      · rw [if_pos hfour] at hlength
        rw [and_iff_right hfour]
        by_cases hnew : second now = s.thread.lastSecond
        · have hcached := cached_iff debug hs hcolumns hfour (hnew ▸ hmade)
          rw [or_iff_right (not_not.mpr hnew), hnew, ← hcached, ← hnew]
          constructor
          · rintro ⟨dt', th, hdt', hth, htime⟩
            cases hdt.symm.trans hdt'
            cases (formatSeconds_same hnew).symm.trans hth
            exact htime
          · intro htime
            exact ⟨dt, s.thread, hdt, formatSeconds_same hnew, htime⟩
        · have hth := formatSeconds_new hnew hdt hcolumns
          rw [assertIn_of debug hlength] at hth
          exact iff_of_true ⟨dt, _, hdt, hth, T_of debug hlength⟩ (.inl hnew)
      · refine iff_of_false ?_ fun h => hfour h.1
        rintro ⟨dt', th, hdt', -, htime⟩
        cases hdt.symm.trans hdt'
        rw [if_neg hfour, length_T htime] at hlength
        cases hlength

end LogWriter

/-- In every run of records and changes of the zone, the time put into a record
is that of its own second in the zone of the log exactly if the year there has
four digits, and the second is not that of the record before or its text was
made in a zone with the same offset. -/
theorem logTime_iff (debug : Bool) (tid : Int) (as : List WriterAction) :
    ∀ x ∈ (logWriter debug).visited as { thread := { tid } },
      x.1.TimeRight debug x.2 ↔ x.1.TimeFits x.2 := by
  intro x hx
  have hkeeps := Machine.visited_invariant (I := LogWriter.Keeps)
    (fun hs _ h => LogWriter.keeps_exec hs h) as (LogWriter.keeps_start tid) x hx
  exact LogWriter.timeRight_iff_timeFits hkeeps x.2

/-- Eight hours east of UTC. -/
def eastOfUtc : ZoneData := ZoneData.addLocalTime 28800 false 0 {}

theorem eastOfUtc_valid : eastOfUtc.Valid where
  nonempty := by decide
  offset := by decide
  utctime := by decide
  localtime := by decide
  ascending := .nil
  ascendingLocal := .nil

/-- What a thread has kept after a record at this second. -/
def oneRecord : LogWriter where
  thread := { tid := 1, lastSecond := 1759999999, time := ascii "20251009 08:53:19" }
  madeIn := some .utc

def noRecord : LogWriter := { thread := { tid := 1 } }

/-- The second record of the same second in the same zone. -/
theorem logTime_iff_sameSecond :
    oneRecord.TimeRight true (.log 1759999999500000 (by decide)) := by
  have hvisited : (oneRecord, WriterAction.log 1759999999500000 (by decide)) ∈
      (logWriter true).visited [.log 1759999999123456 (by decide),
        .log 1759999999500000 (by decide)] noRecord :=
    .tail _ (.head _)
  refine (logTime_iff true 1 _ _ hvisited).mpr ⟨by decide, .inr ⟨.utc, rfl, rfl⟩⟩

/-- A record in the first second of the epoch finds nothing in `t_time`; and the
zone that is set between two records of a second does not show in the second. -/
theorem logTime_stale :
    (∀ debug, ¬ noRecord.TimeRight debug (.log 0 (by decide))) ∧
      ∀ debug, ∃ s, (logWriter debug).run [.log 1759999999123456 (by decide),
        .setTimeZone eastOfUtc_valid.logZone] noRecord = some s ∧
        ¬ s.TimeRight debug (.log 1759999999500000 (by decide)) := by
  constructor
  · intro debug hright
    obtain ⟨-, hfits⟩ := (LogWriter.timeRight_iff_timeFits (LogWriter.keeps_start 1) _).mp hright
    rcases hfits with hne | ⟨z, hz, -⟩
    · exact hne rfl
    · cases hz
  · intro debug
    refine ⟨oneRecord.setTimeZone eastOfUtc_valid.logZone, by cases debug <;> rfl, ?_⟩
    intro hright
    have hkeeps : (oneRecord.setTimeZone eastOfUtc_valid.logZone).Keeps :=
      .time ⟨by decide, by decide⟩
        (show BreakTime (1759999999 + 0) = .ok ⟨2025, 10, 9, 8, 53, 19⟩ from rfl) rfl
    obtain ⟨-, hfits⟩ := (LogWriter.timeRight_iff_timeFits hkeeps _).mp hright
    rcases hfits with hne | ⟨z, hz, hoffset⟩
    · exact hne rfl
    · cases hz
      exact absurd hoffset (by decide)

end Libanet
