import Libanet.Base.Assert
import Libanet.Lib.Digits

/-!
# `net/InetAddress.cc`, and how `net/SocketOps.cc` prints an address

A server puts its address into the names of its connections, through a
buffer of 64 bytes. Whether the name survives that is a question about how
long a printed address can get, so printing is modelled down to the C
library's `inet_ntop`: dotted decimal for IPv4; for IPv6 eight hexadecimal
words with the longest run of zeros left out, and a dotted decimal tail
where an IPv4 address is embedded.
-/

namespace Libanet.Net

/-- `snprintf` into a buffer of `size` bytes: what does not fit before the
terminating NUL is cut off. -/
def snprintf (size : Nat) (s : List Char) : List Char := s.take (size - 1)

/-- `"%u"`. -/
def formatU (n : Nat) : List Char := Nat.toDigits 10 n

/-- `"%x"`. -/
def formatX (n : Nat) : List Char := Nat.toDigits 16 n

/-- `"%d"`. -/
def formatD (n : Int) : List Char :=
  if n < 0 then '-' :: Nat.toDigits 10 n.natAbs else Nat.toDigits 10 n.natAbs

structure In4Addr where
  a : UInt8
  b : UInt8
  c : UInt8
  d : UInt8

/-- An IPv6 address, as the eight words it is printed from. -/
structure In6Addr where
  words : List UInt16
  size : words.length = 8

inductive InetAddress where
  | v4 (addr : In4Addr) (port : UInt16)
  | v6 (addr : In6Addr) (port : UInt16)

/-! ## `inet_ntop` -/

def inet_ntop4 (addr : In4Addr) : List Char :=
  formatU addr.a.toNat ++ '.' :: formatU addr.b.toNat ++ '.' :: formatU addr.c.toNat ++
    '.' :: formatU addr.d.toNat

/-- A run of words that are zero. -/
structure ZeroRun where
  base : Nat
  len : Nat

namespace ZeroRun

def covers (r : ZeroRun) (i : Nat) : Bool := r.base ≤ i && i < r.base + r.len

def extend (cur : Option ZeroRun) (i : Nat) : ZeroRun :=
  match cur with
  | none => ⟨i, 1⟩
  | some r => ⟨r.base, r.len + 1⟩

/-- The first of the longest runs wins. -/
def longer (best cur : Option ZeroRun) : Option ZeroRun :=
  match best, cur with
  | _, none => best
  | none, _ => cur
  | some b, some c => if c.len > b.len then some c else some b

def scan (best cur : Option ZeroRun) : Nat → List UInt16 → Option ZeroRun
  | _, [] => longer best cur
  | i, w :: ws =>
      if w = 0 then scan best (some (extend cur i)) (i + 1) ws
      else scan (longer best cur) none (i + 1) ws

/-- The run that is printed as `::`, of two words at least. -/
def best (words : List UInt16) : Option ZeroRun :=
  (scan none none 0 words).filter (2 ≤ ·.len)

end ZeroRun

namespace In6Addr

def word (addr : In6Addr) (i : Nat) : UInt16 := addr.words.getD i 0

/-- What `inet_ntop` prints for one word. -/
def piece (addr : In6Addr) (i : Nat) : List Char :=
  match ZeroRun.best addr.words with
  | some r =>
      if r.covers i then (if i = r.base then [':'] else [])
      else (if i ≠ 0 then [':'] else []) ++ formatX (addr.word i).toNat
  | none => (if i ≠ 0 then [':'] else []) ++ formatX (addr.word i).toNat

/-- An IPv4 address is embedded: zeros, or zeros and `ffff`, in front. -/
def embedsIPv4 (addr : In6Addr) : Bool :=
  match ZeroRun.best addr.words with
  | some r => r.base = 0 && (r.len = 6 || (r.len = 5 && addr.word 5 = 0xffff))
  | none => false

def trailingRun (addr : In6Addr) : Bool :=
  match ZeroRun.best addr.words with
  | some r => r.base + r.len = 8
  | none => false

/-- The last four bytes. -/
def tail (addr : In6Addr) : In4Addr :=
  ⟨(addr.word 6 >>> 8).toUInt8, (addr.word 6).toUInt8,
    (addr.word 7 >>> 8).toUInt8, (addr.word 7).toUInt8⟩

end In6Addr

def inet_ntop6 (addr : In6Addr) : List Char :=
  if addr.embedsIPv4 then
    (List.range 6).flatMap addr.piece ++ ':' :: inet_ntop4 addr.tail
  else
    (List.range 8).flatMap addr.piece ++ (if addr.trailingRun then [':'] else [])

/-! ## `inet_pton`

As the C library reads an address: one character at a time. The octets of an
IPv4 address have no leading zeros; the words of an IPv6 address have at most
four digits, one `::` stands for as many zeros as are missing, and a dotted
tail is read by the IPv4 reader from where the word in hand began. -/

/-- `done` are the octets that a dot has ended, `cur` is the one in hand, once
a digit of it was seen. -/
def inet_pton4.read (done : List UInt8) (cur : Option Nat) : List Char → Option In4Addr
  | [] =>
      match done, cur with
      | [a, b, c], some d => some ⟨a, b, c, UInt8.ofNat d⟩
      | _, _ => none
  | ch :: rest =>
      if '0' ≤ ch ∧ ch ≤ '9' then
        let new := 10 * cur.getD 0 + (ch.toNat - 48)
        if cur = some 0 ∨ new > 255 then none
        else inet_pton4.read done (some new) rest
      else if ch = '.' then
        match cur with
        | some d =>
            if done.length = 3 then none else inet_pton4.read (done ++ [UInt8.ofNat d]) none rest
        | none => none
      else none

def inet_pton4 (src : List Char) : Option In4Addr := inet_pton4.read [] none src

/-- The locals of the loop that reads an IPv6 address: the words stored so
far, how many there were at the `::`, the word in hand with the number of its
digits, and where its text began. -/
structure Pton6 where
  tmp : List UInt16
  colonp : Option Nat
  val : Nat
  xdigitsSeen : Nat
  curtok : List Char

namespace Pton6

/-- A word from its two bytes, as they lie in memory. -/
def wordOfBytes (hi lo : UInt8) : UInt16 := UInt16.ofNat (256 * hi.toNat + lo.toNat)

/-- The word in hand is stored, if there is one. -/
def store (s : Pton6) : Option (List UInt16) :=
  if s.xdigitsSeen = 0 then some s.tmp
  else if s.tmp.length ≥ 8 then none
  else some (s.tmp ++ [UInt16.ofNat s.val])

/-- The `::` is filled up with zeros. -/
def expand (tmp : List UInt16) : Option Nat → Option (List UInt16)
  | none => some tmp
  | some k =>
      if tmp.length = 8 then none
      else some (tmp.take k ++ List.replicate (8 - tmp.length) 0 ++ tmp.drop k)

/-- Behind the loop: eight words must have come out. -/
def finish (s : Pton6) : Option In6Addr := do
  let tmp ← s.store
  let tmp ← expand tmp s.colonp
  if h : tmp.length = 8 then some ⟨tmp, h⟩ else none

def read (s : Pton6) : List Char → Option In6Addr
  | [] => s.finish
  | ch :: rest =>
      match digitValue ch with
      | some digit =>
          if s.xdigitsSeen = 4 then none
          else read { s with val := 16 * s.val + digit, xdigitsSeen := s.xdigitsSeen + 1 } rest
      | none =>
          if ch = ':' then
            if s.xdigitsSeen = 0 then
              if s.colonp.isSome then none
              else read { s with colonp := some s.tmp.length, curtok := rest } rest
            else if rest = [] then none
            else if s.tmp.length ≥ 8 then none
            else read ⟨s.tmp ++ [UInt16.ofNat s.val], s.colonp, 0, 0, rest⟩ rest
          else if ch = '.' ∧ s.tmp.length + 2 ≤ 8 then
            match inet_pton4 s.curtok with
            | some t =>
                finish { s with
                  tmp := s.tmp ++ [wordOfBytes t.a t.b, wordOfBytes t.c t.d]
                  xdigitsSeen := 0 }
            | none => none
          else none

end Pton6

def inet_pton6 (src : List Char) : Option In6Addr :=
  match src with
  | ':' :: ':' :: rest => Pton6.read ⟨[], none, 0, 0, ':' :: rest⟩ (':' :: rest)
  | [] => none
  | ':' :: _ => none
  | src => Pton6.read ⟨[], none, 0, 0, src⟩ src

/-! ## `sockets::toIp` and `sockets::toIpPort` -/

def INET_ADDRSTRLEN : Nat := 16
def INET6_ADDRSTRLEN : Nat := 46

/-- Into a buffer that passes its assert, `inet_ntop` always prints. -/
def toIp (size : Nat) : InetAddress → Except Fault (List Char)
  | .v4 addr _ => do
      assertThat (size ≥ INET_ADDRSTRLEN)
      return inet_ntop4 addr
  | .v6 addr _ => do
      assertThat (size ≥ INET6_ADDRSTRLEN)
      return inet_ntop6 addr

def toIpPort (size : Nat) : InetAddress → Except Fault (List Char)
  | .v6 addr port => do
      let buf := '[' :: (← toIp (size - 1) (.v6 addr port))
      assertThat (size > buf.length)
      return buf ++ snprintf (size - buf.length) (']' :: ':' :: formatU port.toNat)
  | .v4 addr port => do
      let buf ← toIp size (.v4 addr port)
      assertThat (size > buf.length)
      return buf ++ snprintf (size - buf.length) (':' :: formatU port.toNat)

/-- `InetAddress::toIpPort`, with its `char buf[64]`. -/
def InetAddress.toIpPort (addr : InetAddress) : Except Fault String := do
  return String.ofList (← Net.toIpPort 64 addr)

/-- `InetAddress::toIp`, with its `char buf[64]`. -/
def InetAddress.toIp (addr : InetAddress) : Except Fault String := do
  return String.ofList (← Net.toIp 64 addr)

/-! ## `sockets::fromIpPort` and the constructors -/

namespace InetAddress

def port : InetAddress → UInt16
  | .v4 _ port => port
  | .v6 _ port => port

def in6addr_any : In6Addr := ⟨[0, 0, 0, 0, 0, 0, 0, 0], rfl⟩
def in6addr_loopback : In6Addr := ⟨[0, 0, 0, 0, 0, 0, 0, 1], rfl⟩

def kInaddrAny : In4Addr := ⟨0, 0, 0, 0⟩
def kInaddrLoopback : In4Addr := ⟨127, 0, 0, 1⟩

/-- `InetAddress(uint16_t portArg, bool loopbackOnly, bool ipv6)`. -/
def ofPort (portArg : UInt16) (loopbackOnly ipv6 : Bool) : InetAddress :=
  if ipv6 then .v6 (if loopbackOnly then in6addr_loopback else in6addr_any) portArg
  else .v4 (if loopbackOnly then kInaddrLoopback else kInaddrAny) portArg

/-- `StringArg`: what stands before the first NUL. -/
def c_str (s : String) : List Char := s.toList.takeWhile (· ≠ '\x00')

/-- An address that cannot be read stays zero, and an error is logged. -/
def fromIpPort4 (ip : List Char) (port : UInt16) : InetAddress × Option String :=
  match inet_pton4 ip with
  | some addr => (.v4 addr port, none)
  | none => (.v4 kInaddrAny port, some "sockets::fromIpPort")

def fromIpPort6 (ip : List Char) (port : UInt16) : InetAddress × Option String :=
  match inet_pton6 ip with
  | some addr => (.v6 addr port, none)
  | none => (.v6 in6addr_any port, some "sockets::fromIpPort")

/-- `InetAddress(StringArg ip, uint16_t portArg, bool ipv6)`: a colon makes it
an IPv6 address. -/
def ofIpPort (ip : String) (portArg : UInt16) (ipv6 : Bool) : InetAddress × Option String :=
  if ipv6 || (c_str ip).contains ':' then fromIpPort6 (c_str ip) portArg
  else fromIpPort4 (c_str ip) portArg

end InetAddress

end Libanet.Net
