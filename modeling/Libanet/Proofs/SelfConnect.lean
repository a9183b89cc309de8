import Libanet.Net.SelfConnect

/-!
# What `isSelfConnect` compares

The condition that should ask for the family sets it, and what it sets it to
is not 0. So the branch for IPv4 is taken for every family. It reads four bytes
behind the port, and what it makes of two IPv6 addresses is whether their flow
infos are the same.
-/

namespace Libanet.Net

variable (host : ByteOrder)

theorem ByteOrder.length_memory {w : Nat} (x : BitVec w) : (host.memory x).length = w / 8 := by
  cases host with
  | little => exact length_bytesLE _ _
  | big => exact length_bytesBE _ _

/-- A number that is stored is read back. -/
theorem ByteOrder.object_memory {w : Nat} (hw : 8 ∣ w) (x : BitVec w) :
    host.object w (host.memory x) = x := by
  have hback : valueLE (bytesLE (w / 8) x.toNat) = x.toNat := by
    have hvalue := valueLE_bytesLE (w / 8) x.toNat
    have hlt : (x.toNat : Int) < 256 ^ (w / 8) := by
      have h := x.isLt
      rw [← pow_bytes hw] at h
      exact_mod_cast h
    rw [Int.emod_eq_of_lt (by omega) hlt] at hvalue
    exact_mod_cast hvalue
  cases host with
  | little =>
      show BitVec.ofNat w (valueLE (bytesLE (w / 8) x.toNat)) = x
      rw [hback, BitVec.ofNat_toNat, BitVec.setWidth_eq]
  | big =>
      show BitVec.ofNat w (valueLE (bytesLE (w / 8) x.toNat).reverse.reverse) = x
      rw [List.reverse_reverse, hback, BitVec.ofNat_toNat, BitVec.setWidth_eq]

/-! ## What is in the variable -/

namespace SockAddr

def port : SockAddr → BitVec 16
  | .inet a => a.sin_port
  | .inet6 a => a.sin6_port

/-- The four bytes behind the port. -/
def behindPort : SockAddr → BitVec 32
  | .inet a => a.s_addr
  | .inet6 a => a.sin6_flowinfo

/-- Every address begins with two bytes of the family, the port, and what is
behind it. -/
theorem bytes_eq (a : SockAddr) : ∃ family : BitVec 16, ∃ rest, a.bytes host =
    host.memory family ++ (host.memory a.port ++ (host.memory a.behindPort ++ rest)) := by
  cases a with
  | inet a => exact ⟨_, _, rfl⟩
  | inet6 a => exact ⟨_, _, rfl⟩

end SockAddr

/-- The structure is at the front of the variable. -/
theorem getSockAddr_some (a : SockAddr) :
    ∃ after, getSockAddr host (some a) = a.bytes host ++ after := ⟨_, rfl⟩

theorem field_getSockAddr (a : SockAddr) {off n : Nat} (h : off + n ≤ 8) :
    field off n (getSockAddr host (some a)) = field off n (a.bytes host) := by
  obtain ⟨family, rest, hbytes⟩ := a.bytes_eq host
  have hlen : 8 ≤ (a.bytes host).length := by
    rw [hbytes]
    simp only [List.length_append, host.length_memory]
    omega
  obtain ⟨after, hvariable⟩ := getSockAddr_some host a
  rw [hvariable]
  exact field_append_left _ (by omega)

theorem load_port (a : SockAddr) : load host 16 2 (getSockAddr host (some a)) = a.port := by
  obtain ⟨family, rest, hbytes⟩ := a.bytes_eq host
  have hbefore : (host.memory family).length = 2 := host.length_memory family
  unfold load
  rw [field_getSockAddr host a (by omega), hbytes,
    field_append _ hbefore (host.length_memory _), host.object_memory (by decide)]

theorem load_behindPort (a : SockAddr) :
    load host 32 4 (getSockAddr host (some a)) = a.behindPort := by
  obtain ⟨family, rest, hbytes⟩ := a.bytes_eq host
  have hbefore : (host.memory family ++ host.memory a.port).length = 4 := by
    rw [List.length_append, host.length_memory, host.length_memory]
  unfold load
  rw [field_getSockAddr host a (by omega), hbytes, ← List.append_assoc,
    field_append _ hbefore (host.length_memory _), host.object_memory (by decide)]

/-! ## The assignment -/

theorem length_getSockAddr (answer : Option SockAddr) :
    2 ≤ (getSockAddr host answer).length := by
  cases answer with
  | none => exact Nat.le_of_ble_eq_true rfl
  | some a =>
      obtain ⟨family, rest, hbytes⟩ := a.bytes_eq host
      obtain ⟨after, hvariable⟩ := getSockAddr_some host a
      rw [hvariable, hbytes]
      simp only [List.length_append, host.length_memory]
      omega

/-- Whatever the family was, the first branch is taken, and it finds what
the system has written. -/
theorem isSelfConnect_eq (l p : SockAddr) : isSelfConnect host (some l) (some p) =
    (decide (l.port = p.port) && decide (l.behindPort = p.behindPort)) := by
  have hfamily : (host.memory AF_INET).length = 2 := host.length_memory AF_INET
  have hfits : 0 + (host.memory AF_INET).length ≤ (getSockAddr host (some l)).length := by
    rw [hfamily]
    exact length_getSockAddr host (some l)
  have hset : load host 16 0 (setField 0 (host.memory AF_INET) (getSockAddr host (some l))) =
      AF_INET := by
    have hbefore : ([] : List UInt8).length = 0 := rfl
    unfold load setField
    rw [List.take_zero, List.append_assoc, field_append _ hbefore (host.length_memory _),
      host.object_memory (by decide)]
  have hkeep (w off : Nat) (hoff : 2 ≤ off) :
      load host w off (setField 0 (host.memory AF_INET) (getSockAddr host (some l))) =
        load host w off (getSockAddr host (some l)) := by
    unfold load
    rw [field_setField_of_le _ hfits (by omega)]
  unfold isSelfConnect
  dsimp only
  rw [hset, if_pos (by decide), hkeep 16 2 (by omega), hkeep 32 4 (by omega), load_port,
    load_port, load_behindPort, load_behindPort]

/-! ## Self-connections -/

namespace SockAddr

def family : SockAddr → BitVec 16
  | .inet _ => AF_INET
  | .inet6 _ => AF_INET6

/-- The same family, port and address. -/
def SameEndpoint : SockAddr → SockAddr → Prop
  | .inet l, .inet p => l.sin_port = p.sin_port ∧ l.s_addr = p.s_addr
  | .inet6 l, .inet6 p => l.sin6_port = p.sin6_port ∧ l.sin6_addr = p.sin6_addr
  | _, _ => False

/-- Two IPv6 addresses with the same port have the same flow info exactly if
they are the same. -/
def FlowTells : SockAddr → SockAddr → Prop
  | .inet6 l, .inet6 p => l.sin6_port = p.sin6_port →
      (l.sin6_flowinfo = p.sin6_flowinfo ↔ l.sin6_addr = p.sin6_addr)
  | _, _ => True

end SockAddr

/-- Every two addresses of one family, on a host of either byte order:
`isSelfConnect` tells whether they are the same if and only if they are of
IPv4, or their flow infos happen to tell. -/
theorem isSelfConnect_iff_flowTells {l p : SockAddr} (h : l.family = p.family) :
    (isSelfConnect host (some l) (some p) = true ↔ l.SameEndpoint p) ↔ l.FlowTells p := by
  have hne : AF_INET ≠ AF_INET6 := by decide
  rw [isSelfConnect_eq, Bool.and_eq_true, decide_eq_true_eq, decide_eq_true_eq]
  cases l with
  | inet l =>
      cases p with
      | inet p => exact iff_of_true Iff.rfl trivial
      | inet6 p => exact absurd h hne
  | inet6 l =>
      cases p with
      | inet p => exact absurd h.symm hne
      | inet6 p =>
          show (l.sin6_port = p.sin6_port ∧ l.sin6_flowinfo = p.sin6_flowinfo ↔
            l.sin6_port = p.sin6_port ∧ l.sin6_addr = p.sin6_addr) ↔ _
          rw [and_congr_right_iff]
          exact Iff.rfl

/-- Port 80 of two hosts. -/
theorem isSelfConnect_iff_flowTells_sameNetwork :
    isSelfConnect .little (some (.inet ⟨0x5000, 0x0100007f⟩))
        (some (.inet ⟨0x5000, 0x0200007f⟩)) = true ↔
      SockAddr.SameEndpoint (.inet ⟨0x5000, 0x0100007f⟩) (.inet ⟨0x5000, 0x0200007f⟩) :=
  (isSelfConnect_iff_flowTells .little (l := .inet ⟨0x5000, 0x0100007f⟩)
    (p := .inet ⟨0x5000, 0x0200007f⟩) rfl).mpr trivial

/-- A connection from port 80 of one host to port 80 of another. -/
theorem isSelfConnect_otherHost :
    ¬ (isSelfConnect .little (some (.inet6 ⟨0x5000, 0, 1, 0⟩))
        (some (.inet6 ⟨0x5000, 0, 2, 0⟩)) = true ↔
      SockAddr.SameEndpoint (.inet6 ⟨0x5000, 0, 1, 0⟩) (.inet6 ⟨0x5000, 0, 2, 0⟩)) := by
  intro h
  have hself : isSelfConnect .little (some (.inet6 ⟨0x5000, 0, 1, 0⟩))
      (some (.inet6 ⟨0x5000, 0, 2, 0⟩)) = true := isSelfConnect_eq .little _ _
  obtain ⟨-, haddr⟩ := h.mp hself
  exact absurd haddr (by decide)

end Libanet.Net
