import Libanet.Lib.Bytes

/-!
# `net/Endian.h`

The byte-order functions, over a host of either byte order. A fixed-width
integer is a `BitVec`; what `memcpy` moves is its object representation,
`memory`, and the value the same bytes have when they are copied back is
`object`. The conversions swap the bytes of a value or leave it, as
`<endian.h>` does, so signed and unsigned integers share them.
-/

namespace Libanet.Net

/-- The byte order of the machine. -/
inductive ByteOrder where
  | little
  | big
  deriving DecidableEq, Repr

namespace ByteOrder

variable {w : Nat}

/-- The bytes of `x` in memory. -/
def memory (host : ByteOrder) (x : BitVec w) : List UInt8 :=
  match host with
  | little => bytesLE (w / 8) x.toNat
  | big => bytesBE (w / 8) x.toNat

/-- The value of the object these bytes are copied into. -/
def object (host : ByteOrder) (w : Nat) (bytes : List UInt8) : BitVec w :=
  match host with
  | little => BitVec.ofNat w (valueLE bytes)
  | big => BitVec.ofNat w (valueBE bytes)

/-- `bswap_16`, `bswap_32` and `bswap_64`. -/
def bswap (x : BitVec w) : BitVec w := BitVec.ofNat w (valueBE (bytesLE (w / 8) x.toNat))

/-- `htobe16`, `htobe32` and `htobe64`. -/
def htobe (host : ByteOrder) (x : BitVec w) : BitVec w :=
  match host with
  | little => bswap x
  | big => x

/-- `be16toh`, `be32toh` and `be64toh`. -/
def betoh (host : ByteOrder) (x : BitVec w) : BitVec w :=
  match host with
  | little => bswap x
  | big => x

end ByteOrder

def hostToNetwork64 (host : ByteOrder) (host64 : BitVec 64) : BitVec 64 := host.htobe host64

def hostToNetwork32 (host : ByteOrder) (host32 : BitVec 32) : BitVec 32 := host.htobe host32

def hostToNetwork16 (host : ByteOrder) (host16 : BitVec 16) : BitVec 16 := host.htobe host16

def networkToHost64 (host : ByteOrder) (net64 : BitVec 64) : BitVec 64 := host.betoh net64

def networkToHost32 (host : ByteOrder) (net32 : BitVec 32) : BitVec 32 := host.betoh net32

def networkToHost16 (host : ByteOrder) (net16 : BitVec 16) : BitVec 16 := host.betoh net16

namespace ByteOrder

variable {w : Nat}

theorem pow_bytes (hw : 8 ∣ w) : 256 ^ (w / 8) = 2 ^ w := by
  obtain ⟨n, rfl⟩ := hw
  rw [Nat.mul_div_cancel_left n (by omega), Nat.pow_mul]

/-- Bytes that fill an object keep their value in it. -/
theorem toNat_ofNat_bytes (hw : 8 ∣ w) {v : Nat} (hv : v < 256 ^ (w / 8)) :
    (BitVec.ofNat w v).toNat = v := by
  rw [pow_bytes hw] at hv
  rw [BitVec.toNat_ofNat, Nat.mod_eq_of_lt hv]

/-- The bytes of a value are those of the integer it stands for in two's
complement. -/
theorem bytesLE_toNat (hw : 8 ∣ w) (x : BitVec w) :
    bytesLE (w / 8) x.toNat = bytesLE (w / 8) x.toInt := by
  have hpow : (256 : Int) ^ (w / 8) = ((2 ^ w : Nat) : Int) := by
    rw [← pow_bytes hw, Int.natCast_pow]
    rfl
  have hmod : (x.toNat : Int) = x.toInt % 256 ^ (w / 8) := by
    rw [hpow, BitVec.toInt_eq_toNat_bmod, Int.bmod_emod, ← Int.natCast_emod,
      Nat.mod_eq_of_lt x.isLt]
  rw [hmod, bytesLE_emod]

/-- A value in network byte order lies in memory with its highest byte
first, whatever the host. -/
theorem memory_htobe (host : ByteOrder) (hw : 8 ∣ w) (x : BitVec w) :
    host.memory (host.htobe x) = bytesBE (w / 8) x.toInt := by
  cases host with
  | little =>
      have hlt : valueBE (bytesLE (w / 8) x.toNat) < 256 ^ (w / 8) := by
        have h := valueBE_lt (bytesLE (w / 8) x.toNat)
        rwa [length_bytesLE] at h
      have hback := bytesLE_valueLE (bytesLE (w / 8) x.toNat).reverse
      rw [List.length_reverse, length_bytesLE] at hback
      show bytesLE (w / 8) (bswap x).toNat = _
      rw [bswap, toNat_ofNat_bytes hw hlt, valueBE, hback, bytesLE_toNat hw, bytesBE]
  | big =>
      show (bytesLE (w / 8) x.toNat).reverse = _
      rw [bytesLE_toNat hw, bytesBE]

/-- Bytes with the highest first, copied into an object and converted to
host order, have the value they spell. -/
theorem betoh_object (host : ByteOrder) (hw : 8 ∣ w) {bytes : List UInt8}
    (hlen : bytes.length = w / 8) :
    host.betoh (host.object w bytes) = BitVec.ofNat w (valueBE bytes) := by
  cases host with
  | little =>
      have hlt := valueLE_lt bytes
      rw [hlen] at hlt
      have hback := bytesLE_valueLE bytes
      rw [hlen] at hback
      show bswap (BitVec.ofNat w (valueLE bytes)) = _
      rw [bswap, toNat_ofNat_bytes hw hlt, hback]
  | big => rfl

theorem ofNat_valueBE_bytesBE (hw : 8 ∣ w) (x : BitVec w) :
    BitVec.ofNat w (valueBE (bytesBE (w / 8) x.toInt)) = x := by
  have hlt : valueBE (bytesBE (w / 8) x.toInt) < 256 ^ (w / 8) := by
    have h := valueBE_lt (bytesBE (w / 8) x.toInt)
    rwa [length_bytesBE] at h
  apply BitVec.eq_of_toNat_eq
  rw [toNat_ofNat_bytes hw hlt]
  have hval := valueLE_bytesLE (w / 8) x.toNat
  have hx : (x.toNat : Int) < 256 ^ (w / 8) := by
    have h := x.isLt
    rw [← pow_bytes hw] at h
    exact_mod_cast h
  rw [bytesLE_toNat hw, Int.emod_eq_of_lt (by omega) hx] at hval
  rw [valueBE, bytesBE, List.reverse_reverse]
  omega

end ByteOrder

end Libanet.Net
