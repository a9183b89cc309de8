import Libanet.Base.ReadSmallFile
import Libanet.Proofs.LogFile

/-!
# What a `ReadSmallFile` reads

The descriptor remembers how far it has read, so the strings of one call of
`readToString` after another are the file from its beginning, without a gap
and with nothing twice. This is so whatever each `read` brings, and also when
one of them fails: what had come before stays in the string. A call that
answers 0 has read all it was asked for, or all there was.

`readToBuffer` reads by position and does not move the descriptor. But it
shares the array with the other function.

`ReadOn` says what the loop does from wherever it stands.
-/

namespace Libanet

namespace ReadSmallFile

/-- What is known of an open file at any time. -/
structure Opened (f : ReadSmallFile) : Prop where
  fd : 0 ≤ f.fd
  err : f.err = 0
  buf : f.buf.length = kBufferSize
  offset : f.offset ≤ f.file.length

/-! ## The loop -/

/-- From `f` the loop has come to `f'`, and has put `data` behind `content`. -/
structure ReadOn (limit : Nat) (content : List UInt8) (f : ReadSmallFile)
    (errno : Option Int) (data : List UInt8) (f' : ReadSmallFile) : Prop where
  opened : f'.Opened
  contents : f'.contents = f.contents
  grows : f.file <+: f'.file
  offset : f'.offset = f.offset + data.length
  consecutive : f'.file.take f'.offset = f.file.take f.offset ++ data
  within : data = [] ∨ content.length + data.length ≤ limit
  complete : errno = none →
    limit ≤ content.length + data.length ∨ f'.offset = f'.file.length
  failed : errno ≠ some 0

variable {f g : ReadSmallFile} {limit : Nat} {content : List UInt8}

theorem Opened.grow (h : f.Opened) (data : List UInt8) : (f.grow data).Opened where
  fd := h.fd
  err := h.err
  buf := h.buf
  offset := by
    show f.offset ≤ (f.file ++ data).length
    have hle := h.offset
    rw [List.length_append]
    omega

theorem length_rest (f : ReadSmallFile) : f.rest.length = f.file.length - f.offset :=
  List.length_drop

theorem take_offset_add (f : ReadSmallFile) (n : Nat) :
    f.file.take (f.offset + n) = f.file.take f.offset ++ f.rest.take n := List.take_add

/-- Growth does not change what has been read. -/
theorem take_offset_grow (h : f.Opened) (data : List UInt8) :
    (f.grow data).file.take f.offset = f.file.take f.offset :=
  List.take_append_of_le_length h.offset

/-- The loop ends with nothing more. -/
theorem ReadOn.stop (h : f.Opened) (data : List UInt8) {errno : Option Int}
    (hcomplete : errno = none → limit ≤ content.length ∨ (f.grow data).rest = [])
    (hfailed : errno ≠ some 0) : ReadOn limit content f errno [] (f.grow data) where
  opened := h.grow data
  contents := rfl
  grows := List.prefix_append f.file data
  offset := rfl
  consecutive := by
    rw [List.append_nil]
    exact take_offset_grow h data
  within := Or.inl rfl
  complete hnone := by
    rcases hcomplete hnone with hfull | hend
    · exact Or.inl hfull
    · have hlength := (f.grow data).length_rest
      have hle := (h.grow data).offset
      rw [hend, List.length_nil] at hlength
      exact Or.inr (by omega)
  failed := hfailed

/-- What a `read` has brought comes in front of what the rest of the loop
brings. -/
theorem ReadOn.cons (h : f.Opened) {grown : List UInt8} {n : Nat} {buf : List UInt8}
    {errno : Option Int} {data : List UInt8} {f' : ReadSmallFile}
    (hn : n ≤ (f.grow grown).rest.length) (hlimit : content.length + n ≤ limit)
    (hrest : ReadOn limit (content ++ (f.grow grown).rest.take n)
      { f.grow grown with buf := buf, offset := (f.grow grown).offset + n } errno data f') :
    ReadOn limit content f errno ((f.grow grown).rest.take n ++ data) f' := by
  have hlength : ((f.grow grown).rest.take n).length = n := List.length_take_of_le hn
  refine ⟨hrest.opened, hrest.contents, (List.prefix_append f.file grown).trans hrest.grows,
    ?_, ?_, ?_, ?_, hrest.failed⟩
  · have hoffset : f'.offset = f.offset + n + data.length := hrest.offset
    rw [hoffset, List.length_append, hlength]
    omega
  · have hall : f'.file.take f'.offset = (f.grow grown).file.take (f.offset + n) ++ data :=
      hrest.consecutive
    have hfirst : (f.grow grown).file.take (f.offset + n) =
        f.file.take f.offset ++ (f.grow grown).rest.take n := by
      rw [← take_offset_grow h grown]
      exact take_offset_add (f.grow grown) n
    rw [hall, hfirst, List.append_assoc]
  · have hwithin := hrest.within
    rw [List.length_append, hlength] at hwithin
    rw [List.length_append, hlength]
    rcases hwithin with rfl | hle
    · exact Or.inr (by simpa using hlimit)
    · exact Or.inr (by omega)
  · intro hnone
    have hcomplete := hrest.complete hnone
    rw [List.length_append, hlength] at hcomplete
    rw [List.length_append, hlength]
    omega

theorem grow_file_nil {data : List UInt8} (h : data = []) : (f.grow data).file = f.file := by
  rw [h]
  exact List.append_nil f.file

/-- No call fails. -/
def NeverFails (read : Fread) : Prop :=
  ∀ call len rest errno ne_zero, read.reply call len rest ≠ .failed errno ne_zero

theorem readLoop_spec (read : Fread) (limit call : Nat) (content : List UInt8) (h : f.Opened) :
    ∃ errno data f', readLoop read limit call content f = .ok (errno, content ++ data, f') ∧
      ReadOn limit content f errno data f' ∧ (NeverFails read → errno = none) ∧
        ((∀ call, read.grown call = []) → f'.file = f.file) := by
  fun_induction readLoop read limit call content f with
  | case1 call content f hlt g n hpos hlen hrest hreply fault hwrite =>
      have hfits : 0 + (g.rest.take n).length ≤ g.buf.length := by
        have hbuf : g.buf.length = kBufferSize := h.buf
        rw [List.length_take, hbuf]
        omega
      rw [writeCells_eq hfits] at hwrite
      cases hwrite
  | case2 call content f hlt g n hpos hlen hrest hreply buf hwrite ih =>
      have hfits : 0 + (g.rest.take n).length ≤ g.buf.length := by
        have hbuf : g.buf.length = kBufferSize := h.buf
        rw [List.length_take, hbuf]
        omega
      rw [writeCells_eq hfits] at hwrite
      have hbuf : buf.length = kBufferSize := by
        rw [← Except.ok.inj hwrite, length_overwriteAt hfits]
        exact h.buf
      have hopened : Opened { g with buf := buf, offset := g.offset + n } := by
        have hlength := g.length_rest
        exact ⟨h.fd, h.err, hbuf, by show g.offset + n ≤ g.file.length; omega⟩
      obtain ⟨errno, data, f', heq, hread, hfails, hsame⟩ := ih hopened
      refine ⟨errno, g.rest.take n ++ data, f', ?_, hread.cons h hrest (by omega), hfails, ?_⟩
      · rw [heq, List.append_assoc]
      · intro hno
        rw [hsame hno]
        exact grow_file_nil (hno call)
  | case3 call content f hlt g hend hreply =>
      have hlen : min (limit - content.length) kBufferSize ≠ 0 := by
        unfold kBufferSize
        omega
      refine ⟨none, [], g, by rw [List.append_nil], ?_, fun _ => rfl, ?_⟩
      · exact .stop h _ (fun _ => Or.inr (hend.resolve_left hlen)) (by simp)
      · exact fun hno => grow_file_nil (hno call)
  | case4 call content f hlt g errno hne hreply =>
      refine ⟨some errno, [], g, by rw [List.append_nil], ?_, ?_, ?_⟩
      · exact .stop h _ (fun hnone => by cases hnone) (fun hzero => hne (Option.some.inj hzero))
      · intro hread
        exact absurd hreply (hread _ _ _ _ _)
      · exact fun hno => grow_file_nil (hno call)
  | case5 call content f hge =>
      have hsame : f.grow [] = f := by
        unfold ReadSmallFile.grow
        rw [List.append_nil]
      have hstop : ReadOn limit content f none [] (f.grow []) :=
        .stop h [] (fun _ => Or.inl (by omega)) (by simp)
      rw [hsame] at hstop
      exact ⟨none, [], f, by rw [List.append_nil], hstop, fun _ => rfl, fun _ => rfl⟩

/-- What has been read is what comes next in the file. -/
theorem ReadOn.next {errno : Option Int} {data : List UInt8} (h : f.Opened)
    (hread : ReadOn limit content f errno data g) :
    data = (g.file.drop f.offset).take data.length := by
  have hconsecutive := hread.consecutive
  have hfront : (f.file.take f.offset).length = f.offset := List.length_take_of_le h.offset
  rw [hread.offset] at hconsecutive
  rw [List.take_drop, hconsecutive, List.drop_left' hfront]

/-- A loop in which no `read` has failed has read all it was to read. -/
theorem ReadOn.all {data : List UInt8} (h : f.Opened) (hread : ReadOn limit [] f none data g) :
    data = (g.file.drop f.offset).take limit := by
  have hnext := hread.next h
  have hwithin : data.length ≤ limit := by
    rcases hread.within with rfl | hle
    · exact Nat.zero_le _
    · simpa using hle
  rcases hread.complete rfl with hfull | hend
  · have hlength : data.length = limit := by
      rw [List.length_nil] at hfull
      omega
    rwa [hlength] at hnext
  · have hrest : (g.file.drop f.offset).length = data.length := by
      rw [List.length_drop, ← hend, hread.offset]
      omega
    rw [List.take_of_length_le (by omega)]
    rwa [List.take_of_length_le (by omega)] at hnext

/-! ## The calls -/

/-- The `reserve` of the call throws. -/
def NegativeReserve (args : ReadArgs) (fstat : Except Int Stat) : Prop :=
  args.hasFileSize = true ∧ ∃ statbuf, fstat = .ok statbuf ∧ statbuf.kind = .regular ∧
    min args.maxSize statbuf.st_size < 0

/-- What a call of `readToString` does. -/
structure ReadStep (s : ReadSmallFile) (args : ReadArgs) (answer : ReadAnswer)
    (t : ReadSmallFile) : Prop where
  opened : t.Opened
  grows : s.file <+: t.file
  contents : t.contents = s.contents ++ [answer.content]
  offset : t.offset = s.offset + answer.content.length
  consecutive : t.file.take t.offset = s.file.take s.offset ++ answer.content
  complete : answer.err = 0 →
    answer.content = (t.file.drop s.offset).take (sizeOfInt args.maxSize)

theorem stat_spec (args : ReadArgs) (fstat : Except Int Stat) (answer : ReadAnswer) :
    NegativeReserve args fstat ∧ stat args fstat answer = .error .length_error ∨
      ¬NegativeReserve args fstat ∧ ∃ answer', stat args fstat answer = .ok answer' ∧
        ∀ statbuf, fstat = .ok statbuf → statbuf.kind = .regular →
          answer'.err = answer.err ∧
            (args.hasFileSize = true → answer'.fileSize = some statbuf.st_size) := by
  by_cases hsize : args.hasFileSize = true
  · cases fstat with
    | error errno =>
        refine Or.inr ⟨?_, _, if_pos hsize, fun statbuf hstat => by cases hstat⟩
        intro hneg
        obtain ⟨-, statbuf, hstat, -⟩ := hneg
        cases hstat
    | ok statbuf =>
        by_cases hneg : statbuf.kind = .regular ∧ min args.maxSize statbuf.st_size < 0
        · obtain ⟨hkind, hmin⟩ := hneg
          refine Or.inl ⟨⟨hsize, statbuf, rfl, hkind, hmin⟩, ?_⟩
          simp only [stat, if_pos hsize, hkind, if_pos hmin]
          rfl
        · refine Or.inr ⟨?_, ?_⟩
          · intro hthrows
            obtain ⟨-, statbuf', hstat, hkind, hmin⟩ := hthrows
            cases hstat
            exact hneg ⟨hkind, hmin⟩
          · cases hkind : statbuf.kind with
            | regular =>
                have hmin : ¬min args.maxSize statbuf.st_size < 0 :=
                  fun hmin => hneg ⟨hkind, hmin⟩
                simp only [stat, if_pos hsize, hkind, if_neg hmin]
                refine ⟨_, rfl, fun statbuf' hstat _ => ?_⟩
                cases hstat
                exact ⟨rfl, fun _ => rfl⟩
            | directory =>
                simp only [stat, if_pos hsize, hkind]
                refine ⟨_, rfl, fun statbuf' hstat hregular => ?_⟩
                cases hstat
                cases hkind.symm.trans hregular
            | other =>
                simp only [stat, if_pos hsize, hkind]
                refine ⟨_, rfl, fun statbuf' hstat hregular => ?_⟩
                cases hstat
                cases hkind.symm.trans hregular
  · exact Or.inr ⟨fun hneg => hsize hneg.1, answer, if_neg hsize,
      fun _ _ _ => ⟨rfl, fun hyes => absurd hyes hsize⟩⟩

/-- A call throws or returns, and what it throws is a `length_error`. -/
theorem readToString_spec {s : ReadSmallFile} (h : s.Opened) (args : ReadArgs)
    (content : List UInt8) (fstat : Except Int Stat) (read : Fread) :
    NegativeReserve args fstat ∧
        s.readToString args content fstat read = .error .length_error ∨
      ¬NegativeReserve args fstat ∧ ∃ answer t,
        s.readToString args content fstat read = .ok (answer, t) ∧ ReadStep s args answer t ∧
        ∀ statbuf, fstat = .ok statbuf → statbuf.kind = .regular → NeverFails read →
          answer.err = 0 ∧ (args.hasFileSize = true → answer.fileSize = some statbuf.st_size) ∧
            ((∀ call, read.grown call = []) → t.file = s.file) := by
  obtain ⟨errno, data, t, hloop, hread, hfails, hsame⟩ :=
    readLoop_spec read (sizeOfInt args.maxSize) 0 [] h
  rw [List.nil_append] at hloop
  unfold readToString
  rw [if_pos h.fd, hloop]
  obtain ⟨hneg, hstat⟩ | ⟨hneg, answer, hstat, hregular⟩ :=
    stat_spec args fstat { err := s.err, content := [] }
  · refine Or.inl ⟨hneg, ?_⟩
    rw [hstat]
    rfl
  · refine Or.inr ⟨hneg, { answer with err := errno.getD answer.err, content := data },
      { t with contents := t.contents ++ [data] }, ?_, ?_, ?_⟩
    · rw [hstat]
      rfl
    · refine ⟨⟨hread.opened.fd, hread.opened.err, hread.opened.buf, hread.opened.offset⟩,
        hread.grows, by rw [hread.contents], hread.offset, hread.consecutive, ?_⟩
      intro herr
      cases errno with
      | none =>
          have hall := hread.all h
          exact hall
      | some e =>
          have hzero : e = 0 := herr
          exact absurd (congrArg some hzero) hread.failed
    · intro statbuf hok hkind hnever
      obtain ⟨herr, hsize⟩ := hregular statbuf hok hkind
      refine ⟨?_, hsize, hsame⟩
      show errno.getD answer.err = 0
      rw [hfails hnever, Option.getD_none, herr]
      exact h.err

/-- What a call of `readToBuffer` does: the array has the first bytes of the
file, and a NUL behind them. -/
structure BufferStep (s : ReadSmallFile) (hasSize : Bool) (err : Int) (size : Option Int)
    (t : ReadSmallFile) : Prop where
  opened : t.Opened
  same : t.file = s.file ∧ t.offset = s.offset ∧ t.contents = s.contents
  filled : err = 0 → ∃ n < kBufferSize, t.buf.take (n + 1) = s.file.take n ++ [0] ∧
    (n = 0 → s.file = []) ∧ (hasSize = true → size = some (n : Int))

/-- The bytes and the NUL fit in the array. -/
theorem write_terminated {buf : List UInt8} (hbuf : buf.length = kBufferSize)
    (data : List UInt8) (hlen : data.length < kBufferSize) : ∃ buf' buf'',
      writeCells Fault.outOfBounds 0 data buf = .ok buf' ∧
      writeCell Fault.outOfBounds data.length 0 buf' = .ok buf'' ∧
      buf''.length = kBufferSize ∧ buf''.take (data.length + 1) = data ++ [0] := by
  have hfits : 0 + (data ++ [0]).length ≤ buf.length := by
    rw [List.length_append, List.length_singleton]
    omega
  have hboth := writeCells_eq (e := Fault.outOfBounds) hfits
  rw [writeCells_append] at hboth
  obtain ⟨buf', hfirst, hsecond⟩ := bind_eq_ok.mp hboth
  rw [Nat.zero_add, writeCells_singleton] at hsecond
  refine ⟨buf', _, hfirst, hsecond, ?_, ?_⟩
  · rw [length_overwriteAt hfits, hbuf]
  · have htake := take_overwriteAt (i := 0) (data ++ [0]) [] (Nat.zero_le buf.length)
    rw [List.append_nil, Nat.zero_add, List.length_append, List.length_singleton,
      List.take_zero, List.nil_append] at htake
    exact htake

theorem readToBuffer_spec {s : ReadSmallFile} (h : s.Opened) (hasSize : Bool)
    (pread : (len : Nat) → (rest : List UInt8) → ReadReply len rest) :
    ∃ err size t, s.readToBuffer hasSize pread = .ok ((err, size), t) ∧
      BufferStep s hasSize err size t := by
  unfold readToBuffer
  rw [if_pos h.fd]
  cases pread (kBufferSize - 1) s.file with
  | some n hpos hlen hrest =>
      have hlength : (s.file.take n).length = n := List.length_take_of_le hrest
      have hlt : n < kBufferSize := by
        unfold kBufferSize at *
        omega
      obtain ⟨buf', buf'', hfirst, hsecond, hbuf, htake⟩ :=
        write_terminated h.buf (s.file.take n) (by rwa [hlength])
      rw [hlength] at hsecond htake
      refine ⟨s.err, if hasSize then some (n : Int) else none, { s with buf := buf'' }, ?_,
        ⟨h.fd, h.err, hbuf, h.offset⟩, ⟨rfl, rfl, rfl⟩, fun _ => ⟨n, hlt, htake, ?_, ?_⟩⟩
      · simp only [hfirst, ok_bind, hsecond]
        rfl
      · intro hzero
        omega
      · intro hsize
        exact if_pos hsize
  | none hend =>
      obtain ⟨buf', buf'', hfirst, hsecond, hbuf, htake⟩ :=
        write_terminated h.buf [] (by decide)
      cases hfirst
      refine ⟨s.err, if hasSize then some 0 else none, { s with buf := buf'' }, ?_,
        ⟨h.fd, h.err, hbuf, h.offset⟩, ⟨rfl, rfl, rfl⟩,
        fun _ => ⟨0, by decide, htake, fun _ => hend.resolve_left (by decide), ?_⟩⟩
      · rw [List.length_nil] at hsecond
        simp only [hsecond, ok_bind]
        rfl
      · intro hsize
        exact if_pos hsize
  | failed errno hne =>
      exact ⟨errno, none, s, rfl, h, ⟨rfl, rfl, rfl⟩, fun hzero => absurd hzero hne⟩

/-! ## Calls one after another -/

/-- What a step of a run does. -/
def Did : ReadSmallFile × ReadFileAction × ReadSmallFile → Prop
  | (s, .readToString args content fstat read, t) =>
      ∃ answer, s.readToString args content fstat read = .ok (answer, t) ∧ ReadStep s args answer t
  | (s, .readToBuffer hasSize pread, t) =>
      ∃ err size, s.readToBuffer hasSize pread = .ok ((err, size), t) ∧
        BufferStep s hasSize err size t
  | (s, .grow data, t) => t = s.grow data

/-- The call is a `readToString` that throws. -/
def Throws : ReadFileAction → Prop
  | .readToString args _ fstat _ => NegativeReserve args fstat
  | _ => False

/-- The strings so far are what the descriptor has left behind. -/
structure Reading (file : List UInt8) (f : ReadSmallFile) : Prop where
  opened : f.Opened
  grows : file <+: f.file
  read : f.contents.flatten = f.file.take f.offset

variable {file : List UInt8} {s t : ReadSmallFile}

theorem Reading.grow (h : Reading file s) (data : List UInt8) : Reading file (s.grow data) where
  opened := h.opened.grow data
  grows := h.grows.trans (List.prefix_append s.file data)
  read := h.read.trans (take_offset_grow h.opened data).symm

theorem Reading.step (h : Reading file s) (a : ReadFileAction) :
    Throws a ∧ exec a s = .error .length_error ∨
      ∃ t, exec a s = .ok t ∧ Reading file t ∧ Did (s, a, t) := by
  cases a with
  | readToString args content fstat read =>
      obtain ⟨hneg, he⟩ | ⟨-, answer, t, he, hstep, -⟩ :=
        readToString_spec h.opened args content fstat read
      · refine Or.inl ⟨hneg, ?_⟩
        show (s.readToString args content fstat read).map Prod.snd = _
        rw [he]
        rfl
      · refine Or.inr ⟨t, ?_, ⟨hstep.opened, h.grows.trans hstep.grows, ?_⟩, answer, he, hstep⟩
        · show (s.readToString args content fstat read).map Prod.snd = _
          rw [he]
          rfl
        · rw [hstep.contents, List.flatten_append, List.flatten_singleton, h.read,
            hstep.consecutive]
  | readToBuffer hasSize pread =>
      obtain ⟨err, size, t, he, hstep⟩ := readToBuffer_spec h.opened hasSize pread
      obtain ⟨hfile, hoffset, hcontents⟩ := hstep.same
      refine Or.inr ⟨t, ?_, ⟨hstep.opened, by rw [hfile]; exact h.grows, ?_⟩, err, size, he, hstep⟩
      · show ((s.readToBuffer hasSize pread).map Prod.snd).mapError _ = _
        rw [he]
        rfl
      · rw [hcontents, hfile, hoffset]
        exact h.read
  | grow data => exact Or.inr ⟨s.grow data, rfl, h.grow data, rfl⟩

theorem Reading.exec {a : ReadFileAction} (h : Reading file s)
    (he : ReadSmallFile.exec a s = .ok t) : Reading file t ∧ Did (s, a, t) := by
  obtain ⟨-, herr⟩ | ⟨t', he', hread, hdid⟩ := h.step a
  · cases he.symm.trans herr
  · cases he.symm.trans he'
    exact ⟨hread, hdid⟩

theorem reading_new {fd : Nat} {buf : List UInt8} (hbuf : buf.length = kBufferSize)
    (hnew : new (.ok fd) file buf = .ok f) : Reading file f := by
  obtain ⟨buf', hwrite, hok⟩ := bind_eq_ok.mp hnew
  have hlt : 0 < buf.length := by
    rw [hbuf]
    decide
  rw [writeCell_eq hlt] at hwrite
  cases hwrite
  cases hok
  exact ⟨⟨Int.natCast_nonneg fd, rfl, by rw [List.length_set]; exact hbuf, Nat.zero_le _⟩,
    List.prefix_refl file, rfl⟩

/-- The calls on an open file, in any order, with others appending to it
meanwhile: what the calls of `readToString` have brought is the beginning of
the file, in order and nothing twice, also when reads fall short or fail; one
that answers 0 has brought the next `maxSize` bytes, or all there were; and
`readToBuffer` brings the beginning of the file and ends it with a NUL. None
of them writes beyond the array, and the only one that throws is a
`readToString` with a negative `maxSize` and a `fileSize`. -/
theorem reads_consecutive {fd : Nat} {buf : List UInt8} (hbuf : buf.length = kBufferSize)
    (hnew : new (.ok fd) file buf = .ok f) {as : List ReadFileAction}
    (hr : machine.run as f = some t) :
    file <+: t.file ∧ t.contents.flatten = t.file.take t.offset ∧
      (∀ x ∈ machine.steps as f, Did x) ∧
      ∀ a, (∃ u, exec a t = .ok u) ∨ Throws a ∧ exec a t = .error .length_error := by
  have hstart := reading_new hbuf hnew
  have hend : Reading file t := Machine.run_invariant (m := machine) (I := Reading file)
    (fun h _ he => (h.exec he).1) hstart hr
  refine ⟨hend.grows, hend.read, ?_, fun a => ?_⟩
  · refine (Machine.steps_iff (m := machine) (I := Reading file) (C := fun _ _ => True)
      (fun h _ he _ => h.exec he) (fun _ _ _ hno => absurd trivial hno) as hstart).mpr ?_
    exact fun _ _ => trivial
  · obtain ⟨hthrows, he⟩ | ⟨u, he, -⟩ := hend.step a
    · exact Or.inr ⟨hthrows, he⟩
    · exact Or.inl ⟨u, he⟩

/-- Reads bring two bytes at most, and nobody appends. -/
def byTwo : Fread where
  grown _ := []
  reply _ len rest :=
    if h : 0 < len ∧ 0 < rest.length then
      .some (min 2 (min len rest.length)) (by omega) (by omega) (by omega)
    else .none (by
      rw [not_and_or, Nat.not_lt, Nat.not_lt, Nat.le_zero, Nat.le_zero] at h
      exact h.imp id List.length_eq_zero_iff.mp)

theorem new_eq (fd : Nat) (file : List UInt8) {buf : List UInt8}
    (hbuf : buf.length = kBufferSize) :
    new (.ok fd) file buf = .ok ⟨fd, 0, buf.set 0 0, file, 0, []⟩ := by
  have hlt : 0 < buf.length := by
    rw [hbuf]
    decide
  unfold new
  rw [writeCell_eq hlt]
  rfl

theorem run_cons_of {a : ReadFileAction} (he : exec a s = .ok t) (as : List ReadFileAction) :
    machine.run (a :: as) s = machine.run as t := Machine.run_cons_of (m := machine) rfl he as

/-- Three bytes of five, and what comes after them. -/
def threeOfFive : List ReadFileAction :=
  [.readToString ⟨3, false, false, false⟩ [] (.error 0) byTwo,
    .readToString ⟨-1, false, false, false⟩ [] (.error 0) byTwo]

theorem reads_consecutive_threeOfFive :
    ∃ f t, new (.ok 3) [1, 2, 3, 4, 5] (List.replicate kBufferSize 0) = .ok f ∧
      machine.run threeOfFive f = some t ∧ t.contents.flatten = t.file.take t.offset := by
  have hbuf : (List.replicate kBufferSize (0 : UInt8)).length = kBufferSize :=
    List.length_replicate
  have hnew := new_eq 3 [1, 2, 3, 4, 5] hbuf
  have hread := reading_new hbuf hnew
  obtain ⟨hthrows, -⟩ | ⟨u, hu, hread', -⟩ := hread.step
    (.readToString ⟨3, false, false, false⟩ [] (.error 0) byTwo)
  · cases hthrows.1
  · obtain ⟨hthrows, -⟩ | ⟨t, ht, -⟩ := hread'.step
      (.readToString ⟨-1, false, false, false⟩ [] (.error 0) byTwo)
    · cases hthrows.1
    · have hr := (run_cons_of hu _).trans (run_cons_of ht [])
      exact ⟨_, t, hnew, hr, (reads_consecutive hbuf hnew hr).2.1⟩

end ReadSmallFile

/-! ## Reading back what was appended -/

namespace AppendFile

end AppendFile

/-- Two lines, of which seven bytes are read back. -/
def twoLines : List AppendCall :=
  [⟨ascii "first\n", LogFile.takesAll⟩, ⟨ascii "second\n", LogFile.takesAll⟩]

end Libanet
