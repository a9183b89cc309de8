import Libanet.Lib.Field
import Libanet.Net.Endian

/-!
# `net/SocketOps.cc`, `isSelfConnect`

The address of a socket, as the bytes that `getsockname` and `getpeername`
write into a `struct sockaddr_in6`, whatever its family is. A `sockaddr_in`
has its port where a `sockaddr_in6` has it, and its address where the other
has its flow info.

The ports and the numbers are as they are stored, in network byte order, since
they are only compared. The addresses of IPv6 are sixteen bytes, the highest
first.
-/

namespace Libanet.Net

/-- `sa_family_t`, with the numbers that Linux has. -/
def AF_INET : BitVec 16 := 2

def AF_INET6 : BitVec 16 := 10

structure SockaddrIn where
  sin_port : BitVec 16
  s_addr : BitVec 32
  deriving DecidableEq, Repr

structure SockaddrIn6 where
  sin6_port : BitVec 16
  sin6_flowinfo : BitVec 32
  sin6_addr : BitVec 128
  sin6_scope_id : BitVec 32
  deriving DecidableEq, Repr

/-- What a socket is bound or connected to. -/
inductive SockAddr where
  | inet (addr : SockaddrIn)
  | inet6 (addr : SockaddrIn6)
  deriving DecidableEq, Repr

namespace SockAddr

/-- The bytes of the structure: for `AF_INET` the last eight are `sin_zero`. -/
def bytes (host : ByteOrder) : SockAddr → List UInt8
  | .inet a => host.memory AF_INET ++ (host.memory a.sin_port ++ (host.memory a.s_addr ++
      List.replicate 8 0))
  | .inet6 a => host.memory AF_INET6 ++ (host.memory a.sin6_port ++
      (host.memory a.sin6_flowinfo ++ (bytesBE 16 a.sin6_addr.toNat ++
        host.memory a.sin6_scope_id)))

end SockAddr

/-- `sizeof(struct sockaddr_in6)`. -/
def sizeofSockaddrIn6 : Nat := 28

/-- `getLocalAddr` and `getPeerAddr`: the variable is cleared, and the system
writes the address over its front. A call that fails leaves it cleared. -/
def getSockAddr (host : ByteOrder) : Option SockAddr → List UInt8
  | some a => setField 0 (a.bytes host) (List.replicate sizeofSockaddrIn6 0)
  | none => List.replicate sizeofSockaddrIn6 0

/-- The number of `w` bits at `off`. -/
def load (host : ByteOrder) (w off : Nat) (block : List UInt8) : BitVec w :=
  host.object w (field off (w / 8) block)

/-- `localSock` and `peerSock` are what `getsockname` and `getpeername` answer
for `sockfd`. The first condition of the source is an assignment,
`localaddr.sin6_family = AF_INET`, whose value is what has been assigned. -/
def isSelfConnect (host : ByteOrder) (localSock peerSock : Option SockAddr) : Bool :=
  let localaddr := getSockAddr host localSock
  let peeraddr := getSockAddr host peerSock
  let localaddr := setField 0 (host.memory AF_INET) localaddr
  if load host 16 0 localaddr ≠ 0 then
    load host 16 2 localaddr = load host 16 2 peeraddr &&
      load host 32 4 localaddr = load host 32 4 peeraddr
  else if load host 16 0 localaddr = AF_INET6 then
    load host 16 2 localaddr = load host 16 2 peeraddr &&
      field 8 16 localaddr = field 8 16 peeraddr
  else false

end Libanet.Net
