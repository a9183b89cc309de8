import Libanet.Base.Assert
import Libanet.Lib.Descriptors
import Libanet.Lib.Machine

/-!
# `net/Acceptor.cc` and its descriptors

An acceptor keeps a listening socket, and one descriptor it has no use for:
when the process has run out of descriptors it cannot accept, and a connection
that is not accepted keeps the socket readable for ever. It then gives up
`idleFd_`, accepts with the number that has become free, closes the
connection, and opens the spare again.

The table of descriptors is the process's. Other threads open and close while
an acceptor works, between any two of its calls, and may take the number it
has just given up. So a step here is one call into the kernel. What the
kernel answers an `accept` is not the program's choice, and neither is what
`errno` is once `LOG_SYSERR` has written its line.

`taken`, `handed`, `closed` and `closes` are kept for the record.
-/

namespace Libanet.Net

/-- What a descriptor of the process is. -/
inductive Holder where
  | acceptSocket
  | idleFd
  /-- `conn` has been accepted, and nothing else has happened to it. -/
  | accepted (conn : Nat)
  /-- `conn` is with `newConnectionCallback_`, or with whom that gave it to. -/
  | connection (conn : Nat)
  | other
  deriving DecidableEq, Repr

/-- The descriptors the acceptor has to close itself. -/
def Holder.ofAcceptor : Holder → Bool
  | .acceptSocket => true
  | .idleFd => true
  | .accepted _ => true
  | .connection _ => false
  | .other => false

/-- `errno` after an `::accept4`. -/
inductive AcceptErrno where
  | EAGAIN
  | ECONNABORTED
  | EINTR
  | EPROTO
  | EPERM
  | EMFILE
  | EBADF
  | EFAULT
  | EINVAL
  | ENFILE
  | ENOBUFS
  | ENOMEM
  | ENOTSOCK
  | EOPNOTSUPP
  | other (code : Nat)
  deriving DecidableEq, Repr

/-- The cases of the `switch` in `sockets::accept` that do not end in
`LOG_FATAL`. -/
def AcceptErrno.expected : AcceptErrno → Bool
  | .EAGAIN => true
  | .ECONNABORTED => true
  | .EINTR => true
  | .EPROTO => true
  | .EPERM => true
  | .EMFILE => true
  | _ => false

/-- What `::accept4` answers. -/
inductive AcceptAnswer where
  | accepted
  | failed (err : AcceptErrno)
  deriving DecidableEq, Repr

/-- Where an acceptor is, between two calls into the kernel. -/
inductive AcceptorPc where
  /-- In the constructor, before `socket()`. -/
  | socket
  /-- Before `idleFd_` is opened. -/
  | openFirst
  /-- Before `bindAddress`. -/
  | bind
  /-- Not in any of its functions. -/
  | ready
  /-- `connfd >= 0`, and `connfd` is `conn`. -/
  | connected (connfd : Int) (conn : Nat)
  /-- Behind `LOG_SYSERR`, before `errno` is looked at. -/
  | logged
  /-- Before the first `::close(idleFd_)`. -/
  | giveUp
  /-- Before the `::accept`. -/
  | swap
  /-- Before the second `::close(idleFd_)`, `idleFd_` being `conn` if anything. -/
  | dropSwapped (conn : Option Nat)
  /-- Before `idleFd_` is opened again. -/
  | reopen
  /-- In the destructor, before `acceptSocket_` goes. -/
  | destroying
  | gone
  deriving DecidableEq, Repr

structure Acceptor where
  fds : DescriptorTable Holder
  /-- The connections the kernel has completed and nobody has accepted. -/
  pending : List Nat
  arrived : Nat
  acceptSocket : Int
  idleFd : Int
  listening : Bool
  hasCallback : Bool
  pc : AcceptorPc
  /-- The connections that were accepted, in order. -/
  taken : List Nat
  /-- Those `newConnectionCallback_` was called with. -/
  handed : List Nat
  /-- Those the acceptor has closed. -/
  closed : List Nat
  /-- The acceptor's calls of `close`, and what the number stood for. -/
  closes : List (Int × Option Holder)

namespace Acceptor

/-- In a process with these descriptors, before the constructor. -/
def new (fds : DescriptorTable Holder) : Acceptor :=
  ⟨fds, [], 0, -1, -1, false, false, .socket, [], [], [], []⟩

/-- `::close(fd)`. -/
def close (fd : Int) (s : Acceptor) : Acceptor :=
  { s with
    fds := s.fds.close fd
    closed := match s.fds.at? fd with
      | some (.accepted conn) => s.closed ++ [conn]
      | _ => s.closed
    closes := s.closes ++ [(fd, s.fds.at? fd)] }

/-- `::open("/dev/null", O_RDONLY | O_CLOEXEC)` into `idleFd_`. -/
def openIdle (opens : Bool) (s : Acceptor) : Acceptor :=
  if opens then
    let (idleFd, fds) := s.fds.openAs .idleFd
    { s with idleFd := idleFd, fds := fds }
  else { s with idleFd := -1 }

/-- The kernel's side of an `::accept`: what it returns, and the connection
behind it. -/
def takePending (answer : AcceptAnswer) (s : Acceptor) : Int × Option Nat × Acceptor :=
  match answer, s.pending with
  | .accepted, conn :: pending =>
      let (connfd, fds) := s.fds.openAs (.accepted conn)
      (connfd, some conn, { s with fds := fds, pending := pending, taken := s.taken ++ [conn] })
  | _, _ => (-1, none, s)

/-! ## The constructor -/

def socket (made : Bool) (s : Acceptor) : Except Fault Acceptor :=
  match made, s.fds.openAs .acceptSocket with
  | true, (.ofNat fd, fds) => .ok { s with acceptSocket := fd, fds := fds, pc := .openFirst }
  | _, _ => .error .fatal

def openFirst (opens : Bool) (s : Acceptor) : Except Fault Acceptor := do
  let s := s.openIdle opens
  assertThat (s.idleFd ≥ 0)
  return { s with pc := .bind }

def bindOrDie (bound : Bool) (s : Acceptor) : Except Fault Acceptor :=
  if bound then .ok { s with pc := .ready } else .error .fatal

/-! ## `listen` -/

def listen (ok : Bool) (s : Acceptor) : Except Fault Acceptor :=
  if ok then .ok { s with listening := true } else .error .fatal

/-! ## `handleRead` -/

/-- `acceptSocket_.accept(&peerAddr)`, to behind the `LOG_SYSERR` if it
fails. -/
def accept (answer : AcceptAnswer) (s : Acceptor) : Except Fault Acceptor :=
  match answer, s.takePending answer with
  | .failed err, _ => if err.expected then .ok { s with pc := .logged } else .error .fatal
  | .accepted, (connfd, some conn, s) => .ok { s with pc := .connected connfd conn }
  | .accepted, (_, none, s) => .ok s

/-- `newConnectionCallback_(connfd, peerAddr)`, or `sockets::close(connfd)`. -/
def deliver (connfd : Int) (conn : Nat) (s : Acceptor) : Acceptor :=
  if s.hasCallback then
    { s with
      fds := s.fds.set connfd.toNat (some (.connection conn))
      handed := s.handed ++ [conn]
      pc := .ready }
  else { s.close connfd with pc := .ready }

def checkErrno (errno : AcceptErrno) (s : Acceptor) : Acceptor :=
  if errno = .EMFILE then { s with pc := .giveUp } else { s with pc := .ready }

/-- `idleFd_ = ::accept(acceptSocket_.fd(), NULL, NULL)`. -/
def swap (answer : AcceptAnswer) (s : Acceptor) : Acceptor :=
  let (idleFd, conn, s) := s.takePending answer
  { s with idleFd := idleFd, pc := .dropSwapped conn }

end Acceptor

inductive AcceptorAction where
  | socket (made : Bool)
  | openFirst (opens : Bool)
  | bind (bound : Bool)
  | setNewConnectionCallback
  | listen (ok : Bool)
  | accept (answer : AcceptAnswer)
  | deliver
  | checkErrno (errno : AcceptErrno)
  | giveUp
  | swap (answer : AcceptAnswer)
  | dropSwapped
  | reopen (opens : Bool)
  /-- `~Acceptor`, to behind its own `::close`. -/
  | destroy
  | destroySocket
  /-- The kernel completes a connection. -/
  | arrive
  /-- One that waits to be accepted is gone again. -/
  | reset (i : Nat)
  /-- Some other thread opens a descriptor. -/
  | openOther
  /-- Some other thread closes one of its own, or `~Socket` that of a connection. -/
  | closeOther (n : Nat)
  deriving DecidableEq, Repr

namespace Acceptor

/-- The kernel can answer so. -/
def answers (s : Acceptor) : AcceptAnswer → Bool
  | .accepted => !s.pending.isEmpty && s.fds.lowest.isSome
  | .failed .EMFILE => s.fds.lowest.isNone
  | .failed .EAGAIN => s.pending.isEmpty
  | .failed _ => true

def guard (s : Acceptor) : AcceptorAction → Bool
  | .socket _ => s.pc = .socket
  | .openFirst _ => s.pc = .openFirst
  | .bind _ => s.pc = .bind
  | .setNewConnectionCallback => s.pc = .ready
  | .listen _ => s.pc = .ready
  | .accept answer => s.pc = .ready && s.listening && s.answers answer
  | .deliver => match s.pc with
      | .connected _ _ => true
      | _ => false
  | .checkErrno _ => s.pc = .logged
  | .giveUp => s.pc = .giveUp
  | .swap answer => s.pc = .swap && s.answers answer
  | .dropSwapped => match s.pc with
      | .dropSwapped _ => true
      | _ => false
  | .reopen _ => s.pc = .reopen
  | .destroy => s.pc = .ready
  | .destroySocket => s.pc = .destroying
  | .arrive => s.listening && s.pc ≠ .gone
  | .reset _ => true
  | .openOther => true
  | .closeOther n => match s.fds.owner n with
      | some h => !h.ofAcceptor
      | none => false

def exec : AcceptorAction → Acceptor → Except Fault Acceptor
  | .socket made, s => s.socket made
  | .openFirst opens, s => s.openFirst opens
  | .bind bound, s => s.bindOrDie bound
  | .setNewConnectionCallback, s => .ok { s with hasCallback := true }
  | .listen ok, s => s.listen ok
  | .accept answer, s => s.accept answer
  | .deliver, s => match s.pc with
      | .connected connfd conn => .ok (s.deliver connfd conn)
      | _ => .ok s
  | .checkErrno errno, s => .ok (s.checkErrno errno)
  | .giveUp, s => .ok { s.close s.idleFd with pc := .swap }
  | .swap answer, s => .ok (s.swap answer)
  | .dropSwapped, s => .ok { s.close s.idleFd with pc := .reopen }
  | .reopen opens, s => .ok { s.openIdle opens with pc := .ready }
  | .destroy, s => .ok { s.close s.idleFd with pc := .destroying }
  | .destroySocket, s => .ok { s.close s.acceptSocket with pc := .gone, pending := [] }
  | .arrive, s => .ok { s with pending := s.pending ++ [s.arrived], arrived := s.arrived + 1 }
  | .reset i, s => .ok { s with pending := s.pending.eraseIdx i }
  | .openOther, s => .ok { s with fds := (s.fds.openAs .other).2 }
  | .closeOther n, s => .ok { s with fds := s.fds.close n }

def machine : Machine Acceptor AcceptorAction Fault := ⟨guard, exec⟩

end Acceptor

end Libanet.Net
