import Libanet.Base.LogPipeline
import Libanet.Proofs.AsyncLog
import Libanet.Proofs.LogFile
import Libanet.Proofs.LogRecord

/-!
# From `append` to the files

A line goes into a buffer whole, a buffer is handed to the log file whole,
and what the log file is handed goes into one file whole. So lines lie in the
files whole, although neither the buffers nor the files are cut where the
lines end: `Grouped` says of two lists that the second cuts the first into
pieces, and cutting the pieces again cuts the first.

What the files have taken is what the batches stand for. That is bookkeeping
between the two halves: the log file has been handed, call by call, what the
batches stand for but the buffers still to be written.

What a reader finds in the files is the beginning of that, since the stream of
the last one has a buffer of its own. It is all of it while the back end is
`Resting`: a turn of its loop ends with a `flush`.
-/

namespace Libanet

/-! ## Cutting twice -/

namespace AsyncLogging.Grouped

variable {xs ys zs : List (List UInt8)}

theorem append {xs' ys' : List (List UInt8)} (h : Grouped xs ys) (h' : Grouped xs' ys') :
    Grouped (xs ++ xs') (ys ++ ys') := by
  obtain ⟨groups, rfl, rfl⟩ := h
  obtain ⟨groups', rfl, rfl⟩ := h'
  exact ⟨groups ++ groups', by simp, by simp⟩

/-- Where the pieces are split, so is what they were cut from. -/
theorem split {ys' : List (List UInt8)} (h : Grouped xs (ys ++ ys')) :
    ∃ front back, xs = front ++ back ∧ Grouped front ys ∧ Grouped back ys' := by
  obtain ⟨groups, rfl, hys⟩ := h
  obtain ⟨front, back, rfl, hfront, hback⟩ := List.map_eq_append_iff.mp hys.symm
  exact ⟨front.flatten, back.flatten, List.flatten_append, ⟨front, rfl, hfront.symm⟩,
    ⟨back, rfl, hback.symm⟩⟩

theorem eq_nil (h : Grouped xs []) : xs = [] := by
  obtain ⟨groups, rfl, hnil⟩ := h
  rw [List.map_eq_nil_iff.mp hnil.symm]
  rfl

theorem trans (h : Grouped xs ys) (h' : Grouped ys zs) : Grouped xs zs := by
  obtain ⟨groups, rfl, rfl⟩ := h'
  induction groups generalizing xs with
  | nil =>
      rw [eq_nil h]
      exact ⟨[], rfl, rfl⟩
  | cons g gs ih =>
      obtain ⟨front, back, rfl, hfront, hback⟩ := h.split
      have hpiece : Grouped front [g.flatten] := ⟨[front], by simp, by
        rw [List.map_singleton, hfront.flatten_eq]⟩
      exact hpiece.append (ih hback)

end AsyncLogging.Grouped

/-! ## The files of a log -/

/-- The files cut the lines into pieces. -/
theorem LogFile.Holds.grouped {lines : List (List UInt8)} {s : LogFile} (h : s.Holds lines) :
    AsyncLogging.Grouped lines (s.files.map OpenedFile.bytes) := by
  obtain ⟨before, current, hclosed, hcurrent, rfl⟩ := h
  obtain ⟨f, hf, hbytes⟩ := Option.map_eq_some_iff.mp hcurrent
  refine ⟨before ++ [current], by simp, ?_⟩
  rw [files_of_file hf, List.map_append, hclosed, List.map_append, List.map_singleton, hbytes,
    List.map_singleton]

/-! ## The invariant -/

/-- What `LogFile::append` is called with for a batch. -/
def Batch.handed (b : Batch) : List (List UInt8) :=
  match b.notice with
  | none => b.buffers
  | some notice => notice :: b.buffers.take 2

namespace AsyncLogging

/-- The buffers still to be written. -/
def toWrite (s : AsyncLogging) : List (List UInt8) :=
  (s.buffersToWrite.drop s.wrote).map BufferPtr.bytes

/-- The front end does not touch what is being written. -/
theorem append_keeps {s t : AsyncLogging} (h : s.Inv) {logline : List UInt8}
    (he : s.append logline = .ok t) :
    t.batches = s.batches ∧ t.toWrite = s.toWrite ∧ t.pc = s.pc := by
  obtain ⟨current, hcurrent⟩ := h.current
  by_cases hfits : logline.length < current.avail
  · cases (append_eq_of_lt hcurrent hfits).symm.trans he
    exact ⟨rfl, rfl, rfl⟩
  · cases (h.pointers.append_eq_of_le hcurrent hfits).symm.trans he
    exact ⟨rfl, rfl, rfl⟩

/-- The back end is not busy with a batch. -/
def Resting (s : AsyncLogging) : Prop := s.pc ≠ .swapped ∧ s.pc ≠ .writing

/-- Where the lines on record and the notices of the batches come from. -/
structure Origin (s : AsyncLogging) (a : LogAction) (t : AsyncLogging) : Prop where
  lines : ∀ l ∈ t.lines, l ∈ s.lines ∨ a = .append l
  batches : ∀ b ∈ t.batches, b ∈ s.batches ∨ b.notice = none ∨
    ∃ time, a = .checkOverload time ∧
      b.notice = some (overloadNotice time s.buffersToWrite.length)

theorem Origin.same {s t : AsyncLogging} {a : LogAction} (hlines : t.lines = s.lines)
    (hbatches : t.batches = s.batches) : Origin s a t :=
  ⟨fun _ hl => .inl (hlines ▸ hl), fun _ hb => .inl (hbatches ▸ hb)⟩

theorem Origin.afterSwap (s : AsyncLogging) (a : LogAction) : Origin s a s.afterSwap := by
  refine ⟨fun l hl => .inl hl, fun b hb => ?_⟩
  rcases List.mem_append.mp hb with hb | hb
  · exact .inl hb
  · rw [List.mem_singleton.mp hb]
    exact .inr (.inl rfl)

theorem Origin.checkOverload {s : AsyncLogging} (h : s.Inv) (hpc : s.pc = .swapped)
    (time : List UInt8) : Origin s (.checkOverload time) (s.checkOverload time) := by
  have hback := h.backEnd
  simp only [BackEnd, hpc] at hback
  obtain ⟨-, -, past, hbatches, -⟩ := hback
  rw [AsyncLogging.checkOverload]
  split
  · refine ⟨fun l hl => .inl hl, fun b hb => ?_⟩
    simp only [hbatches, setNotice_concat, List.mem_append, List.mem_singleton] at hb ⊢
    rcases hb with hb | rfl
    · exact .inl (.inl hb)
    · exact .inr (.inr ⟨time, rfl, rfl⟩)
  · exact .same rfl rfl

theorem exec_origin {s t : AsyncLogging} (h : s.Inv) {a : LogAction} (hg : s.guard a = true)
    (he : exec a s = .ok t) : Origin s a t := by
  cases a with
  | append logline =>
      obtain ⟨hbatches, -, -⟩ := append_keeps h he
      refine ⟨fun l hl => ?_, fun b hb => .inl (hbatches ▸ hb)⟩
      have hlines : t.lines = s.lines ++ [logline] := by
        obtain ⟨current, hcurrent⟩ := h.current
        by_cases hfits : logline.length < current.avail
        · cases (append_eq_of_lt hcurrent hfits).symm.trans he
          rfl
        · cases (h.pointers.append_eq_of_le hcurrent hfits).symm.trans he
          rfl
      rw [hlines, List.mem_append, List.mem_singleton] at hl
      exact hl.imp_right fun hl => by rw [hl]
  | whileTest =>
      cases (h.pointers.whileTest_eq (of_decide_eq_true hg)).symm.trans he
      exact .same rfl rfl
  | lock =>
      have hpc : s.pc = .entered := of_decide_eq_true hg
      by_cases hempty : s.buffers.isEmpty = true
      · cases (if_pos hempty).symm.trans he
        exact .same rfl rfl
      · cases ((if_neg hempty).trans (h.pointers.swap_eq (.inl hpc))).symm.trans he
        exact .afterSwap s .lock
  | wakeup =>
      cases (h.pointers.swap_eq (.inr (of_decide_eq_true hg))).symm.trans he
      exact .afterSwap s .wakeup
  | checkOverload time =>
      cases he
      exact .checkOverload h (of_decide_eq_true hg) time
  | write =>
      obtain ⟨buffer, -, hwrite⟩ := h.pointers.write_eq (of_decide_eq_true hg).2
      cases hwrite.symm.trans he
      exact .same rfl rfl
  | recycle =>
      cases (h.pointers.recycle_eq (of_decide_eq_true hg).1).symm.trans he
      exact .same rfl rfl
  | stop =>
      cases he
      exact .same rfl rfl

/-- The exchange: nothing was left to be written, and now it is the new batch. -/
theorem swap_hands (s : AsyncLogging) :
    s.afterSwap.batches = s.batches ++ [Batch.of (s.buffers ++ [s.currentBuffer])] ∧
      (Batch.of (s.buffers ++ [s.currentBuffer])).handed = s.afterSwap.toWrite :=
  ⟨rfl, by simp [Batch.handed, Batch.of, toWrite, afterSwap]⟩

end AsyncLogging

namespace LogPipeline

structure Inv (basename : List UInt8) (rollSize : Int) (s : LogPipeline) : Prop where
  log : s.log.Inv
  output : s.output.Kept basename rollSize s.handed
  handed : s.log.batches.flatMap Batch.handed = s.handed ++ s.log.toWrite
  flushed : s.log.Resting → s.output.AllFlushed

variable {basename : List UInt8} {rollSize : Int} {s t : LogPipeline}

theorem inv_new {env : NameEnv} (hpos : 0 < env.now) (hnew : new basename rollSize env = .ok s) :
    s.Inv basename rollSize := by
  obtain ⟨output, houtput, hs⟩ := bind_eq_ok.mp hnew
  cases hs
  obtain ⟨hkept, -, hflushed⟩ := LogFile.Kept.of_new hpos houtput
  exact ⟨AsyncLogging.inv_new, hkept, rfl, fun _ => hflushed⟩

/-- Nothing is handed over, and nothing taken over. -/
theorem Inv.keeps (h : s.Inv basename rollSize) {log : AsyncLogging} (hlog : log.Inv)
    (hbatches : log.batches = s.log.batches) (htoWrite : log.toWrite = s.log.toWrite)
    (hresting : log.Resting → s.log.Resting) :
    Inv basename rollSize { s with log := log } where
  log := hlog
  output := h.output
  handed := by
    rw [hbatches, htoWrite]
    exact h.handed
  flushed hr := h.flushed (hresting hr)

/-- A new batch is taken over, when nothing is left of the last. -/
theorem Inv.takes (h : s.Inv basename rollSize) {log : AsyncLogging} (hlog : log.Inv) {b : Batch}
    (hbatches : log.batches = s.log.batches ++ [b]) (hidle : s.log.toWrite = [])
    (htoWrite : b.handed = log.toWrite) (hbusy : ¬log.Resting) :
    Inv basename rollSize { s with log := log } where
  flushed hr := absurd hr hbusy
  log := hlog
  output := h.output
  handed := by
    rw [hbatches, List.flatMap_append, List.flatMap_singleton, h.handed, hidle, List.append_nil,
      htoWrite]

/-- `output.append` goes through. -/
theorem appendOutput_spec (h : s.Inv basename rollSize) (logline : List UInt8) (env : AppendEnv) :
    ∃ output, s.appendOutput logline env
        = .ok { s with output := output, handed := s.handed ++ [logline] } ∧
      output.Kept basename rollSize (s.handed ++ [logline]) := by
  obtain ⟨output, he, hkept, -⟩ := h.output.step
    (.append logline env.fwrite env.noErrors env.now env.now_pos env.name env.name_pos)
  exact ⟨output, bind_eq_ok.mpr ⟨output, he, rfl⟩, hkept⟩

/-- `output.flush` goes through. -/
theorem Inv.flush (h : s.Inv basename rollSize) :
    ∃ output, s.output.flush = .ok output ∧
      (∀ {log : AsyncLogging}, log.Inv → log.batches = s.log.batches →
        log.toWrite = s.log.toWrite →
        Inv basename rollSize { s with log := log, output := output }) := by
  obtain ⟨output, he, hkept, hflushed, -⟩ := h.output.flush
  refine ⟨output, he, fun hlog hbatches htoWrite => ⟨hlog, hkept, ?_, fun _ => hflushed⟩⟩
  rw [hbatches, htoWrite]
  exact h.handed

/-! ## Steps and runs -/

/-- A step goes through, is a step of the logger, and keeps the invariant. -/
def Follows (basename : List UInt8) (rollSize : Int) (s : LogPipeline) (a : PipelineAction) :
    Prop :=
  ∃ t, exec a s = .ok t ∧ AsyncLogging.exec a.log s.log = .ok t.log ∧ t.Inv basename rollSize

theorem append_follows (h : s.Inv basename rollSize) {logline : List UInt8}
    (hg : AsyncLogging.guard s.log (.append logline) = true) :
    Follows basename rollSize s (.append logline) := by
  obtain ⟨log, he, hlog, -⟩ := AsyncLogging.append_inv h.log (of_decide_eq_true hg)
  obtain ⟨hbatches, htoWrite, hpc⟩ := AsyncLogging.append_keeps h.log he
  have hresting : log.Resting → s.log.Resting := by
    unfold AsyncLogging.Resting
    rw [hpc]
    exact id
  exact ⟨{ s with log := log }, bind_eq_ok.mpr ⟨log, he, rfl⟩, he,
    h.keeps hlog hbatches htoWrite hresting⟩

theorem whileTest_follows (h : s.Inv basename rollSize) (hpc : s.log.pc = .whileTest) :
    Follows basename rollSize s .whileTest := by
  obtain ⟨log, he, hlog, -⟩ := AsyncLogging.whileTest_inv h.log hpc
  cases (h.log.pointers.whileTest_eq hpc).symm.trans he
  have hresting : s.log.Resting := by simp [AsyncLogging.Resting, hpc]
  cases hrun : s.log.running with
  | true =>
      rw [hrun] at he hlog
      exact ⟨_, bind_eq_ok.mpr ⟨_, he, rfl⟩, he, h.keeps hlog rfl rfl fun _ => hresting⟩
  | false =>
      rw [hrun] at he hlog
      obtain ⟨output, hflush, hinv⟩ := h.flush
      exact ⟨_, bind_eq_ok.mpr ⟨_, he, bind_eq_ok.mpr ⟨output, hflush, rfl⟩⟩, he,
        hinv hlog rfl rfl⟩

theorem swap_follows (h : s.Inv basename rollSize)
    (hpc : s.log.pc = .entered ∨ s.log.pc = .waiting) :
    s.log.swap = .ok s.log.afterSwap ∧
      Inv basename rollSize { s with log := s.log.afterSwap } := by
  obtain ⟨-, -, hidle⟩ := h.log.pointers.idle (.inr hpc)
  obtain ⟨hbatches, htoWrite⟩ := s.log.swap_hands
  refine ⟨h.log.pointers.swap_eq hpc,
    h.takes (AsyncLogging.afterSwap_inv h.log hpc) hbatches ?_ htoWrite fun hr => hr.1 rfl⟩
  rw [AsyncLogging.toWrite, hidle, List.drop_nil]
  rfl

theorem lock_follows (h : s.Inv basename rollSize) (hpc : s.log.pc = .entered) :
    Follows basename rollSize s .lock := by
  by_cases hempty : s.log.buffers.isEmpty = true
  · have he : AsyncLogging.exec .lock s.log = .ok { s.log with pc := .waiting } := if_pos hempty
    obtain ⟨log, he', hlog, -⟩ := AsyncLogging.step_inv (a := .lock) h.log (decide_eq_true hpc)
    cases he.symm.trans he'
    have hresting : s.log.Resting := by simp [AsyncLogging.Resting, hpc]
    exact ⟨_, bind_eq_ok.mpr ⟨_, he, rfl⟩, he, h.keeps hlog rfl rfl fun _ => hresting⟩
  · obtain ⟨hswap, hinv⟩ := swap_follows h (.inl hpc)
    have he : AsyncLogging.exec .lock s.log = .ok s.log.afterSwap := (if_neg hempty).trans hswap
    exact ⟨_, bind_eq_ok.mpr ⟨_, he, rfl⟩, he, hinv⟩

/-- The notice is handed over, and all but two buffers are given up. -/
theorem checkOverload_follows (h : s.Inv basename rollSize) (hpc : s.log.pc = .swapped)
    (time : List UInt8) (env : AppendEnv) :
    Follows basename rollSize s (.checkOverload time env) := by
  obtain ⟨hlog, -⟩ := AsyncLogging.checkOverload_inv h.log hpc time
  have hback := h.log.backEnd
  simp only [AsyncLogging.BackEnd, hpc] at hback
  obtain ⟨-, hwrote, past, hbatches, -⟩ := hback
  by_cases hmany : 25 < s.log.buffersToWrite.length
  · generalize hbuf : AsyncLogging.overloadNotice time s.log.buffersToWrite.length = buf
    obtain ⟨output, happend, hkept⟩ := appendOutput_spec h buf env
    have hbusy : ¬(s.log.checkOverload time).Resting := by
      simp [AsyncLogging.Resting, AsyncLogging.checkOverload, hmany]
    refine ⟨{ s with
      log := s.log.checkOverload time, output := output, handed := s.handed ++ [buf] }, ?_, rfl,
      hlog, hkept, ?_, fun hr => absurd hr hbusy⟩
    · simp only [exec, LogPipeline.checkOverload, if_pos hmany, hbuf, happend, ok_bind]
      rfl
    · have hhanded := h.handed
      rw [AsyncLogging.toWrite, hwrote, List.drop_zero, hbatches, List.flatMap_append,
        List.flatMap_singleton] at hhanded
      have hpast : past.flatMap Batch.handed = s.handed := by
        simpa [Batch.handed, Batch.of] using hhanded
      simp only [AsyncLogging.checkOverload, if_pos hmany, AsyncLogging.toWrite, hwrote, hbuf,
        hbatches, AsyncLogging.setNotice_concat, List.drop_zero]
      simp [Batch.handed, Batch.of, hpast, List.map_take]
  · have hsame : s.log.checkOverload time = { s.log with pc := .writing } := if_neg hmany
    rw [hsame] at hlog
    refine ⟨{ s with log := { s.log with pc := .writing } }, ?_, congrArg Except.ok hsame,
      h.keeps hlog rfl rfl fun hr => absurd rfl hr.2⟩
    rw [exec, LogPipeline.checkOverload, if_neg hmany, hsame]
    rfl

theorem write_follows (h : s.Inv basename rollSize) (hpc : s.log.pc = .writing)
    (hwrote : s.log.wrote < s.log.buffersToWrite.length) (env : AppendEnv) :
    Follows basename rollSize s (.write env) := by
  obtain ⟨buffer, hbuffer, he⟩ := h.log.pointers.write_eq hwrote
  obtain ⟨log, he', hlog, -⟩ := AsyncLogging.write_inv h.log hpc hwrote
  have hsame := Except.ok.inj (he'.symm.trans he)
  obtain ⟨output, happend, hkept⟩ := appendOutput_spec h buffer.data env
  have hget : s.log.buffersToWrite.getD s.log.wrote none = some buffer := by
    rw [List.getD_eq_getElem?_getD, List.getElem?_eq_getElem hwrote, hbuffer]
    rfl
  have hbusy : ¬log.Resting := by simp [AsyncLogging.Resting, hsame, hpc]
  refine ⟨⟨log, output, s.handed ++ [buffer.data]⟩, ?_, he', hlog, hkept, ?_,
    fun hr => absurd hr hbusy⟩
  · simp only [exec, LogPipeline.write, hget, BufferPtr.deref, happend, ok_bind, he']
    rfl
  · have hhanded := h.handed
    rw [AsyncLogging.toWrite, List.drop_eq_getElem_cons hwrote, hbuffer, List.map_cons] at hhanded
    rw [hsame, List.append_assoc]
    exact hhanded

theorem recycle_follows (h : s.Inv basename rollSize) (hpc : s.log.pc = .writing)
    (hwrote : s.log.wrote = s.log.buffersToWrite.length) :
    Follows basename rollSize s .recycle := by
  obtain ⟨log, he, hlog, -⟩ := AsyncLogging.recycle_inv h.log hpc hwrote
  have hsame := Except.ok.inj (he.symm.trans (h.log.pointers.recycle_eq hpc))
  have hnone : log.toWrite = s.log.toWrite := by
    rw [AsyncLogging.toWrite, AsyncLogging.toWrite, hwrote, List.drop_length, hsame]
    simp
  obtain ⟨output, hflush, hinv⟩ := h.flush
  refine ⟨{ s with log := log, output := output }, ?_, he, hinv hlog (by rw [hsame]) hnone⟩
  rw [exec, LogPipeline.recycle, he, ok_bind, hflush]
  rfl

/-- Every step of the pipeline. -/
theorem step_follows (h : s.Inv basename rollSize) {a : PipelineAction}
    (hg : machine.guard s a = true) : Follows basename rollSize s a := by
  cases a with
  | append logline => exact append_follows h hg
  | whileTest => exact whileTest_follows h (of_decide_eq_true hg)
  | lock => exact lock_follows h (of_decide_eq_true hg)
  | wakeup =>
      obtain ⟨hswap, hinv⟩ := swap_follows h (.inr (of_decide_eq_true hg))
      exact ⟨_, bind_eq_ok.mpr ⟨_, hswap, rfl⟩, hswap, hinv⟩
  | checkOverload time env => exact checkOverload_follows h (of_decide_eq_true hg) time env
  | write env =>
      obtain ⟨hpc, hwrote⟩ := of_decide_eq_true hg
      exact write_follows h hpc hwrote env
  | recycle =>
      obtain ⟨hpc, hwrote⟩ := of_decide_eq_true hg
      exact recycle_follows h hpc hwrote
  | stop =>
      obtain ⟨log, he, hlog, -⟩ := AsyncLogging.step_inv (a := .stop) h.log hg
      cases he
      exact ⟨_, rfl, rfl, h.keeps hlog rfl rfl id⟩

theorem inv_of_reaches (h : s.Inv basename rollSize) (hr : machine.Reaches s t) :
    t.Inv basename rollSize := by
  refine hr.invariant h fun h hg he => ?_
  obtain ⟨u, he', -, hinv⟩ := step_follows h hg
  cases he.symm.trans he'
  exact hinv

/-! ## What the batches stand for -/

open AsyncLogging (Grouped Checked)

/-- While the back end is busy, a reader finds the beginning of what the files
have taken, and else all of it. -/
theorem Inv.content (h : s.Inv basename rollSize) {content : OpenedFile → List UInt8}
    (hc : ∀ f ∈ s.output.files, f.MayHold (content f)) :
    (s.output.files.map content).flatten <+: (s.output.files.map OpenedFile.bytes).flatten ∧
      (s.log.Resting → s.output.files.map content = s.output.files.map OpenedFile.bytes) :=
  ⟨h.output.inv.content_prefix hc, fun hr => LogFile.content_of_flushed (h.flushed hr) hc⟩

def someAppend : AppendEnv where
  fwrite := LogFile.takesAll
  noErrors := LogFile.takesAll_noErrors
  now := 86402
  now_pos := by decide
  name := ⟨86402, ascii "host", 7⟩
  name_pos := by decide

/-- A line comes in while the back end waits, another when it is about to
write. -/
def twoLines : List PipelineAction :=
  [.whileTest, .lock, .append (ascii "one\n"), .wakeup, .checkOverload [] someAppend,
    .append (ascii "two\n")]

/-- A line of text: no NUL, and a newline at its end and nowhere else. -/
def IsLine (r : List UInt8) : Prop := Framed r ∧ 0x0a ∉ r.dropLast

instance (r : List UInt8) : Decidable (IsLine r) := inferInstanceAs (Decidable ((_ ∧ _) ∧ _))

/-- What is appended is a line, and what goes into a notice leaves it one. -/
def textual (s : LogPipeline) : PipelineAction → Bool
  | .append logline => IsLine logline
  | .checkOverload time _ =>
      0 ∉ time ∧ 0x0a ∉ time ∧ time.length ≤ 64 ∧ s.log.buffersToWrite.length < 2 ^ 64
  | _ => true

theorem isLine_overloadNotice {time : List UInt8} (hnul : 0 ∉ time) (hline : 0x0a ∉ time)
    (htime : time.length ≤ 64) {size : Nat} (hsize : size < 2 ^ 64) :
    IsLine (AsyncLogging.overloadNotice time size) := by
  obtain ⟨body, hbody⟩ : ∃ body, body = ascii "Dropped log messages at " ++ time ++ ascii ", " ++
      decimalDigits (size - 2) ++ ascii " larger buffers" := ⟨_, rfl⟩
  have hdigits : (decimalDigits (size - 2)).length ≤ 20 :=
    (length_decimalDigits_le_iff (by decide)).mpr (by omega)
  have htext : AsyncLogging.overloadNotice time size = body ++ [0x0a] := by
    have hascii : ascii (toString (size - 2)) = decimalDigits (size - 2) := by
      rw [ascii, decimalDigits, ← Nat.toList_repr]
      rfl
    have hend : ascii " larger buffers\n" = ascii " larger buffers" ++ [0x0a] := rfl
    rw [AsyncLogging.overloadNotice, hascii, hend, ← List.append_assoc, ← hbody,
      List.take_of_length_le]
    have h24 : (ascii "Dropped log messages at ").length = 24 := rfl
    have h2 : (ascii ", ").length = 2 := rfl
    have h15 : (ascii " larger buffers").length = 15 := rfl
    simp only [hbody, List.length_append, List.length_singleton, h24, h2, h15]
    omega
  have hplain : ∀ {text : List UInt8}, text.all (fun c => c != 0 && c != 0x0a) = true →
      ∀ c ∈ text, c ≠ 0 ∧ c ≠ 0x0a := by
    intro text htext c hc
    simpa using List.all_eq_true.mp htext c hc
  have hmem : ∀ c ∈ body, c ≠ 0 ∧ c ≠ 0x0a := by
    intro c hc
    simp only [hbody, List.mem_append] at hc
    rcases hc with (((hc | hc) | hc) | hc) | hc
    · exact hplain (show (ascii "Dropped log messages at ").all _ = true from rfl) c hc
    · exact ⟨ne_of_mem_of_not_mem hc hnul, ne_of_mem_of_not_mem hc hline⟩
    · exact hplain (show (ascii ", ").all _ = true from rfl) c hc
    · obtain ⟨hlow, -⟩ := isDigit_decimalDigits _ c hc
      constructor
      · rintro rfl
        exact absurd hlow (by decide)
      · rintro rfl
        exact absurd hlow (by decide)
    · exact hplain (show (ascii " larger buffers").all _ = true from rfl) c hc
  rw [htext]
  refine ⟨⟨fun h => ?_, by simp⟩, fun h => ?_⟩
  · rcases List.mem_append.mp h with h | h
    · exact (hmem 0 h).1 rfl
    · exact absurd h (by decide)
  · rw [List.dropLast_concat] at h
    exact (hmem _ h).2 rfl

/-- Only lines are on record, of the front end or as notices. -/
structure Textual (s : LogPipeline) : Prop where
  lines : ∀ l ∈ s.log.lines, IsLine l
  notices : ∀ b ∈ s.log.batches, ∀ notice, b.notice = some notice → IsLine notice

theorem Textual.step {a : PipelineAction} (ht : s.Textual) (h : s.Inv basename rollSize)
    (hg : machine.guard s a = true) (htext : textual s a = true)
    (he : machine.exec a s = .ok t) : t.Textual := by
  obtain ⟨u, he', hlog, -⟩ := step_follows h hg
  cases he.symm.trans he'
  obtain ⟨hlines, hnotices⟩ := AsyncLogging.exec_origin h.log hg hlog
  constructor
  · intro l hl
    rcases hlines l hl with hl | ha
    · exact ht.lines l hl
    · cases a with
      | append logline =>
          cases ha
          exact of_decide_eq_true htext
      | _ => cases ha
  · intro b hb notice hnotice
    rcases hnotices b hb with hb | hnone | ⟨time, ha, hsome⟩
    · exact ht.notices b hb notice hnotice
    · rw [hnone] at hnotice
      cases hnotice
    · cases a with
      | checkOverload time' env =>
          cases ha
          obtain ⟨hnul, hline, hlen, hsize⟩ := of_decide_eq_true htext
          rw [← Option.some.inj (hsome.symm.trans hnotice)]
          exact isLine_overloadNotice hnul hline hlen hsize
      | _ => cases ha

end LogPipeline

end Libanet
