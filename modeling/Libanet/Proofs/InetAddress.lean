import Libanet.Net.InetAddress

/-!
# How long a printed address gets

Every word of an IPv6 address prints at most five characters, its colon
included, and an embedded IPv4 tail only follows a run of zeros that prints
almost nothing. So a printed address stays well below the 45 characters
that `INET6_ADDRSTRLEN` leaves room for, and with its port below 52.
-/

namespace Libanet.Net

theorem length_formatU_byte (x : UInt8) : (formatU x.toNat).length ≤ 3 := by
  have hx := x.toNat_lt
  exact (Nat.length_toDigits_le_iff (by decide) (by decide)).mpr (by omega)

theorem length_formatU_port (p : UInt16) : (formatU p.toNat).length ≤ 5 := by
  have hp := p.toNat_lt
  exact (Nat.length_toDigits_le_iff (by decide) (by decide)).mpr (by omega)

theorem length_formatX_word (w : UInt16) : (formatX w.toNat).length ≤ 4 :=
  (Nat.length_toDigits_le_iff (by decide) (by decide)).mpr w.toNat_lt

theorem length_inet_ntop4 (addr : In4Addr) : (inet_ntop4 addr).length ≤ 15 := by
  have ha := length_formatU_byte addr.a
  have hb := length_formatU_byte addr.b
  have hc := length_formatU_byte addr.c
  have hd := length_formatU_byte addr.d
  simp only [inet_ntop4, List.length_append, List.length_cons]
  omega

theorem In6Addr.length_piece (addr : In6Addr) (i : Nat) :
    (addr.piece i).length ≤ 5 := by
  have hx := length_formatX_word (addr.word i)
  unfold piece
  split
  · split
    · split <;> simp
    · split <;> simp <;> omega
  · split <;> simp <;> omega

/-- A word inside the run that is left out prints a colon at most. -/
theorem In6Addr.length_piece_covered {addr : In6Addr} {r : ZeroRun}
    (hr : ZeroRun.best addr.words = some r) {i : Nat} (hi : r.covers i = true) :
    (addr.piece i).length ≤ 1 := by
  unfold piece
  rw [hr]
  dsimp only
  rw [if_pos hi]
  split <;> simp

theorem length_inet_ntop6 (addr : In6Addr) : (inet_ntop6 addr).length ≤ 43 := by
  have h := addr.length_piece
  unfold inet_ntop6
  split
  · next hemb =>
      -- the run covers the first five words, which leaves room for the tail
      have h4 := length_inet_ntop4 addr.tail
      have hcov : ∀ i < 5, (addr.piece i).length ≤ 1 := by
        unfold In6Addr.embedsIPv4 at hemb
        split at hemb
        · next r hr =>
            simp only [Bool.and_eq_true, Bool.or_eq_true, decide_eq_true_eq] at hemb
            intro i hi
            refine In6Addr.length_piece_covered hr ?_
            simp only [ZeroRun.covers, Bool.and_eq_true, decide_eq_true_eq]
            omega
        · cases hemb
      have h0 := hcov 0 (by decide)
      have h1 := hcov 1 (by decide)
      have h2 := hcov 2 (by decide)
      have h3 := hcov 3 (by decide)
      have h4' := hcov 4 (by decide)
      have h5 := h 5
      simp [List.range_succ]
      omega
  · have h0 := h 0
    have h1 := h 1
    have h2 := h 2
    have h3 := h 3
    have h4 := h 4
    have h5 := h 5
    have h6 := h 6
    have h7 := h 7
    have htail : (if addr.trailingRun then [':'] else []).length ≤ 1 := by
      split <;> simp
    rw [List.length_append]
    simp [List.range_succ] at htail ⊢
    omega

/-- A printed address and port fit the buffer, and are never longer than 51
characters. -/
theorem InetAddress.toIpPort_spec (addr : InetAddress) :
    ∃ s, addr.toIpPort = .ok s ∧ s.length ≤ 51 := by
  cases addr with
  | v4 addr port =>
      have hip := length_inet_ntop4 addr
      have hp := length_formatU_port port
      have hlt : 64 > (inet_ntop4 addr).length := by omega
      refine ⟨_, bind_eq_ok.mpr ⟨_, bind_eq_ok.mpr ⟨_, rfl,
        assertThat_bind_eq_ok.mpr ⟨hlt, rfl⟩⟩, rfl⟩, ?_⟩
      rw [String.length_ofList]
      simp only [snprintf, List.length_append, List.length_cons, List.length_take]
      omega
  | v6 addr port =>
      have hip := length_inet_ntop6 addr
      have hp := length_formatU_port port
      have hlt : 64 > ('[' :: inet_ntop6 addr).length := by
        rw [List.length_cons]
        omega
      refine ⟨_, bind_eq_ok.mpr ⟨_, bind_eq_ok.mpr ⟨_, rfl,
        assertThat_bind_eq_ok.mpr ⟨hlt, rfl⟩⟩, rfl⟩, ?_⟩
      rw [String.length_ofList]
      simp only [snprintf, List.length_append, List.length_cons, List.length_take]
      omega

end Libanet.Net
