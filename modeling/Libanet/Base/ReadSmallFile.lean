import Libanet.Base.StringPiece
import Libanet.Lib.Machine
import Libanet.Lib.Memory

/-!
# `base/FileUtil.cc`, `ReadSmallFile`

A file that is read into a string, by way of the array `buf_`, or into the
array itself. How much of what is asked for a `::read` brings is not the
program's choice: it comes in from outside, as are its errors, and what others
have appended to the file meanwhile. The laws of the kernel are fields of the
answer. It brings something, and not more than is asked for or there, unless
it fails; and if it is asked for something it brings nothing only at the end
of the file.

`file` is what is in the file and `offset` where the descriptor stands in it.
`contents` is kept for the record: what each call of `readToString` has left
in the string. Every write to `buf_` is checked against its end.
-/

namespace Libanet

/-- What `::read` answers when it is asked for `len` bytes and `rest` is there. -/
inductive ReadReply (len : Nat) (rest : List UInt8) where
  | some (n : Nat) (pos : 0 < n) (le_len : n ≤ len) (le_rest : n ≤ rest.length)
  | none (atEnd : len = 0 ∨ rest = [])
  | failed (errno : Int) (ne_zero : errno ≠ 0)

/-- The answers to the calls of one `readToString`, the first of which is call
0, and what has been appended to the file before each. -/
structure Fread where
  grown : Nat → List UInt8
  reply : (call len : Nat) → (rest : List UInt8) → ReadReply len rest

inductive FileKind where
  | regular
  | directory
  | other
  deriving DecidableEq, Repr

/-- What `fstat` stores. -/
structure Stat where
  kind : FileKind
  st_size : Int
  st_mtime : Int
  st_ctime : Int
  deriving DecidableEq, Repr

def EISDIR : Int := 21

/-- How these functions stop without returning. -/
inductive ReadFileStop where
  | fault (f : Fault)
  | length_error
  deriving DecidableEq, Repr

/-- The arguments of `readToString`, with which of the pointers are null. -/
structure ReadArgs where
  maxSize : Int
  hasFileSize : Bool
  hasModifyTime : Bool
  hasCreateTime : Bool
  deriving DecidableEq, Repr

/-- What it returns, and what it has stored through the pointers. -/
structure ReadAnswer where
  err : Int
  content : List UInt8
  fileSize : Option Int := none
  modifyTime : Option Int := none
  createTime : Option Int := none
  deriving DecidableEq, Repr

structure ReadSmallFile where
  fd : Int
  err : Int
  buf : List UInt8
  file : List UInt8
  offset : Nat
  contents : List (List UInt8)
  deriving DecidableEq, Repr

namespace ReadSmallFile

def kBufferSize : Nat := 64 * 1024

/-- The constructor; `opened` is what `::open` returned, or its `errno`, and
`buf` what is in the array. -/
def new (opened : Except Int Nat) (file buf : List UInt8) :
    Except Fault ReadSmallFile := do
  let buf ← writeCell .outOfBounds 0 0 buf
  match opened with
  | .ok fd => return ⟨fd, 0, buf, file, 0, []⟩
  | .error errno => return ⟨-1, errno, buf, file, 0, []⟩

/-- What the destructor passes to `::close`. -/
def closes (f : ReadSmallFile) : Option Int := if 0 < f.fd then some f.fd else none

/-- What `readToString` does for a `fileSize` that is not null. `reserve` is
given an `int`, and a negative one is a size no string has. -/
def stat (args : ReadArgs) (fstat : Except Int Stat) (answer : ReadAnswer) :
    Except ReadFileStop ReadAnswer :=
  if args.hasFileSize then
    match fstat with
    | .error errno => .ok { answer with err := errno }
    | .ok statbuf => do
        let answer ← (match statbuf.kind with
          | .regular =>
              if min args.maxSize statbuf.st_size < 0 then .error .length_error
              else .ok { answer with fileSize := some statbuf.st_size }
          | .directory => .ok { answer with err := EISDIR }
          | .other => .ok answer)
        return { answer with
          modifyTime := if args.hasModifyTime then some statbuf.st_mtime else none
          createTime := if args.hasCreateTime then some statbuf.st_ctime else none }
  else .ok answer

/-- What others have appended. -/
def grow (data : List UInt8) (f : ReadSmallFile) : ReadSmallFile :=
  { f with file := f.file ++ data }

def rest (f : ReadSmallFile) : List UInt8 := f.file.drop f.offset

/-- The loop of `readToString`. `limit` is `maxSize` as a `size_t`. It answers
the `errno` of a `read` that failed. -/
def readLoop (read : Fread) (limit call : Nat) (content : List UInt8) (f : ReadSmallFile) :
    Except Fault (Option Int × List UInt8 × ReadSmallFile) :=
  if content.length < limit then
    let g := f.grow (read.grown call)
    match read.reply call (min (limit - content.length) kBufferSize) g.rest with
    | .some n _ _ _ =>
        match writeCells .outOfBounds 0 (g.rest.take n) g.buf with
        | .error fault => .error fault
        | .ok buf =>
            readLoop read limit (call + 1) (content ++ g.rest.take n)
              { g with buf := buf, offset := g.offset + n }
    | .none _ => .ok (none, content, g)
    | .failed errno _ => .ok (some errno, content, g)
  else .ok (none, content, f)
termination_by limit - content.length
decreasing_by
  show limit - (content ++ g.rest.take n).length < limit - content.length
  rw [List.length_append, List.length_take]
  omega

/-- `readToString`, with what was in `*content` before. -/
def readToString (args : ReadArgs) (content : List UInt8) (fstat : Except Int Stat)
    (read : Fread) (f : ReadSmallFile) : Except ReadFileStop (ReadAnswer × ReadSmallFile) :=
  if 0 ≤ f.fd then do
    let answer ← stat args fstat { err := f.err, content := [] }
    let (errno, content, f) ←
      (readLoop read (sizeOfInt args.maxSize) 0 [] f).mapError .fault
    return ({ answer with err := errno.getD answer.err, content := content },
      { f with contents := f.contents ++ [content] })
  else .ok ({ err := f.err, content := content }, f)

/-- `readToBuffer`, with what it returns and what it stores at `size`, which
may be null. -/
def readToBuffer (hasSize : Bool)
    (pread : (len : Nat) → (rest : List UInt8) → ReadReply len rest) (f : ReadSmallFile) :
    Except Fault ((Int × Option Int) × ReadSmallFile) :=
  if 0 ≤ f.fd then
    match pread (kBufferSize - 1) f.file with
    | .some n _ _ _ => do
        let buf ← writeCells .outOfBounds 0 (f.file.take n) f.buf
        let buf ← writeCell .outOfBounds n 0 buf
        return ((f.err, if hasSize then some (n : Int) else none), { f with buf := buf })
    | .none _ => do
        let buf ← writeCell .outOfBounds 0 0 f.buf
        return ((f.err, if hasSize then some 0 else none), { f with buf := buf })
    | .failed errno _ => .ok ((errno, none), f)
  else .ok ((f.err, none), f)

end ReadSmallFile

inductive ReadFileAction where
  | readToString (args : ReadArgs) (content : List UInt8) (fstat : Except Int Stat) (read : Fread)
  | readToBuffer (hasSize : Bool)
      (pread : (len : Nat) → (rest : List UInt8) → ReadReply len rest)
  /-- Somebody appends to the file. -/
  | grow (data : List UInt8)

namespace ReadSmallFile

def exec : ReadFileAction → ReadSmallFile → Except ReadFileStop ReadSmallFile
  | .readToString args content fstat read, f =>
      (f.readToString args content fstat read).map Prod.snd
  | .readToBuffer hasSize pread, f => ((f.readToBuffer hasSize pread).map Prod.snd).mapError .fault
  | .grow data, f => .ok (f.grow data)

def machine : Machine ReadSmallFile ReadFileAction ReadFileStop := ⟨fun _ _ => true, exec⟩

end ReadSmallFile

end Libanet
