import Libanet.Proofs.InetAddress

/-!
# A printed address reads back

`inet_ntop` leaves out the longest run of zero words, and prints the last two
words in dotted decimal where an IPv4 address is embedded. `inet_pton` has to
put the same words back. What is printed is brought into the form the reader
sees it in, two lists of words around a `::`, and the reader is followed over
one list and then over the other.

The zeros that are put back are those that were left out because the run that
is printed as `::` lies inside the address and consists of zeros; that it is
the longest one does not matter.
-/

namespace Libanet.Net

/-! ## The run of zeros -/

/-- The words of the run are there, and zero. -/
def ZeroRun.Within (words : List UInt16) (r : ZeroRun) : Prop :=
  ∀ i, r.base ≤ i → i < r.base + r.len → words[i]? = some 0

theorem ZeroRun.longer_mem {best cur : Option ZeroRun} {r : ZeroRun}
    (h : r ∈ longer best cur) : r ∈ best ∨ r ∈ cur := by
  cases cur with
  | none => exact .inl h
  | some c =>
      cases best with
      | none => exact .inr h
      | some b =>
          simp only [longer] at h
          split at h
          · exact .inr h
          · exact .inl h

theorem ZeroRun.within_extend {words : List UInt16} {cur : Option ZeroRun} {i : Nat}
    (hcur : ∀ r ∈ cur, Within words r ∧ r.base + r.len = i) (hi : words[i]? = some 0) :
    Within words (extend cur i) ∧ (extend cur i).base + (extend cur i).len = i + 1 := by
  cases cur with
  | none =>
      refine ⟨fun j hj hj' => ?_, rfl⟩
      simp only [extend] at hj hj'
      rwa [show j = i by omega]
  | some r =>
      obtain ⟨hw, hend⟩ := hcur r rfl
      simp only [extend]
      refine ⟨fun j hj hj' => ?_, by omega⟩
      rcases Nat.lt_or_ge j i with hlt | hge
      · exact hw j hj (by omega)
      · simp only at hj'
        rwa [show j = i by omega]

theorem ZeroRun.within_scan {words ws : List UInt16} {best cur : Option ZeroRun} {i : Nat}
    (hws : words.drop i = ws) (hbest : ∀ r ∈ best, Within words r)
    (hcur : ∀ r ∈ cur, Within words r ∧ r.base + r.len = i) :
    ∀ r ∈ scan best cur i ws, Within words r := by
  have hlonger : ∀ r ∈ longer best cur, Within words r := by
    intro r hr
    rcases longer_mem hr with hr | hr
    · exact hbest r hr
    · exact (hcur r hr).1
  induction ws generalizing i best cur with
  | nil => exact hlonger
  | cons w ws ih =>
      have hi : words[i]? = some w := by
        rw [← Nat.add_zero i, ← List.getElem?_drop, hws]
        rfl
      have hrest : words.drop (i + 1) = ws := by
        rw [← List.drop_drop, hws]
        rfl
      rw [scan]
      split
      · next hw =>
          rw [hw] at hi
          have hext := within_extend hcur hi
          have hcur' : ∀ r ∈ some (extend cur i), Within words r ∧ r.base + r.len = i + 1 := by
            intro r hr
            rw [← Option.some.inj hr]
            exact hext
          refine ih hrest hbest hcur' fun r hr => ?_
          rcases longer_mem hr with hr | hr
          · exact hbest r hr
          · exact (hcur' r hr).1
      · refine ih hrest hlonger (by simp) fun r hr => ?_
        rcases longer_mem hr with hr | hr
        · exact hlonger r hr
        · cases hr

theorem ZeroRun.best_within {words : List UInt16} {r : ZeroRun} (h : best words = some r) :
    Within words r ∧ 2 ≤ r.len := by
  obtain ⟨hr, hlen⟩ := Option.filter_eq_some_iff.mp h
  exact ⟨within_scan List.drop_zero (by simp) (by simp) r hr, by simpa using hlen⟩

/-- Around the run, with its zeros in between, are all the words. -/
theorem ZeroRun.Within.split {words : List UInt16} {r : ZeroRun} (h : Within words r)
    (hlen : 0 < r.len) :
    r.base + r.len ≤ words.length ∧
      words = words.take r.base ++ List.replicate r.len 0 ++ words.drop (r.base + r.len) := by
  have hle : r.base + r.len ≤ words.length := by
    have hlast := h (r.base + r.len - 1) (by omega) (by omega)
    obtain ⟨hlt, _⟩ := List.getElem?_eq_some_iff.mp hlast
    omega
  refine ⟨hle, List.ext_getElem? fun i => ?_⟩
  rw [List.append_assoc]
  rcases Nat.lt_or_ge i r.base with hi | hi
  · rw [List.getElem?_append_left (by simp; omega), List.getElem?_take_of_lt hi]
  · rw [List.getElem?_append_right (by simp; omega), List.length_take_of_le (by omega)]
    rcases Nat.lt_or_ge i (r.base + r.len) with hi' | hi'
    · rw [h i hi hi', List.getElem?_append_left (by simp; omega),
        List.getElem?_replicate_of_lt (by omega)]
    · rw [List.getElem?_append_right (by simp; omega), List.length_replicate,
        List.getElem?_drop]
      congr 1
      omega

/-! ## What is printed -/

/-- Words with a colon in front of each. -/
def colonWords (words : List UInt16) : List Char :=
  words.flatMap fun w => ':' :: formatX w.toNat

/-- Words with colons between them. -/
def joinWords : List UInt16 → List Char
  | [] => []
  | w :: ws => formatX w.toNat ++ colonWords ws

theorem colonWords_cons (w : UInt16) (ws : List UInt16) :
    colonWords (w :: ws) = ':' :: joinWords (w :: ws) := rfl

namespace In6Addr

theorem word_eq {addr : In6Addr} {i : Nat} (h : i < addr.words.length) :
    addr.word i = addr.words[i] := by
  simp [word, List.getD_eq_getElem?_getD, h]

theorem piece_plain {addr : In6Addr} {i : Nat}
    (h : ∀ r, ZeroRun.best addr.words = some r → r.covers i = false) :
    addr.piece i = (if i ≠ 0 then [':'] else []) ++ formatX (addr.word i).toNat := by
  unfold piece
  cases hr : ZeroRun.best addr.words with
  | none => rfl
  | some r => simp [h r hr]

/-- A stretch of words none of which is left out. -/
theorem pieces_plain {addr : In6Addr} {n : Nat} {b : Nat} (hb : b ≠ 0)
    (hn : b + n ≤ 8)
    (h : ∀ r, ZeroRun.best addr.words = some r → ∀ i, b ≤ i → i < b + n → r.covers i = false) :
    (List.range' b n).flatMap addr.piece = colonWords ((addr.words.drop b).take n) := by
  have hsize := addr.size
  induction n generalizing b with
  | zero => rfl
  | succ n ih =>
      have hlt : b < addr.words.length := by omega
      rw [List.range'_succ, List.flatMap_cons,
        ih (by omega) (by omega) (fun r hr i hi hi' => h r hr i (by omega) (by omega)),
        piece_plain (fun r hr => h r hr b (Nat.le_refl b) (by omega)), if_pos hb,
        List.drop_eq_getElem_cons hlt, List.take_succ_cons, colonWords_cons, joinWords,
        word_eq hlt]
      rfl

/-- The words before the run. -/
theorem pieces_head {addr : In6Addr} {n : Nat} (hn : n ≤ 8)
    (h : ∀ r, ZeroRun.best addr.words = some r → ∀ i < n, r.covers i = false) :
    (List.range' 0 n).flatMap addr.piece = joinWords (addr.words.take n) := by
  have hsize := addr.size
  cases n with
  | zero => rfl
  | succ n =>
      have hlt : 0 < addr.words.length := by omega
      rw [List.range'_succ, List.flatMap_cons,
        pieces_plain (by omega) (by omega) (fun r hr i _ hi => h r hr i (by omega)),
        piece_plain (fun r hr => h r hr 0 (by omega)), if_neg (by simp), List.nil_append,
        word_eq hlt]
      conv_rhs => rw [← List.drop_zero (l := addr.words), List.drop_eq_getElem_cons hlt]
      rfl

/-- Of the run a single colon is printed. -/
theorem pieces_run {addr : In6Addr} {r : ZeroRun} (hr : ZeroRun.best addr.words = some r) {n : Nat}
    (hn : 0 < n) (hle : n ≤ r.len) : (List.range' r.base n).flatMap addr.piece = [':'] := by
  have hcov : ∀ i, r.base < i → i < r.base + r.len → addr.piece i = [] := by
    intro i hi hi'
    simp [piece, hr, ZeroRun.covers, show r.base ≤ i by omega, hi', show i ≠ r.base by omega]
  have hbase : addr.piece r.base = [':'] := by
    simp [piece, hr, ZeroRun.covers, show 0 < r.len by omega]
  obtain ⟨m, rfl⟩ : ∃ m, n = m + 1 := ⟨n - 1, by omega⟩
  rw [List.range'_succ, List.flatMap_cons, hbase, List.flatMap_eq_nil_iff.mpr]
  · rfl
  · intro i hi
    rw [List.mem_range'_1] at hi
    exact hcov i (by omega) (by omega)

theorem covers_before {r : ZeroRun} {i : Nat} (h : i < r.base) : r.covers i = false := by
  simp [ZeroRun.covers]
  omega

theorem covers_behind {r : ZeroRun} {i : Nat} (h : r.base + r.len ≤ i) : r.covers i = false := by
  simp [ZeroRun.covers]
  omega

/-- The first `m` words, up to somewhere behind the run. -/
theorem pieces_around {addr : In6Addr} {r : ZeroRun} (hr : ZeroRun.best addr.words = some r)
    (hle : r.base + r.len ≤ 8) {n : Nat} (hn : r.base + r.len + n ≤ 8) :
    (List.range (r.base + r.len + n)).flatMap addr.piece
      = joinWords (addr.words.take r.base) ++ ':' ::
          colonWords ((addr.words.drop (r.base + r.len)).take n) := by
  have hlen := (ZeroRun.best_within hr).2
  have honly : ∀ r', ZeroRun.best addr.words = some r' → r' = r := fun r' hr' =>
    Option.some.inj (hr'.symm.trans hr)
  rw [List.range_eq_range', ← List.range'_append_1, ← List.range'_append_1, List.flatMap_append,
    List.flatMap_append, Nat.zero_add, Nat.zero_add,
    pieces_head (by omega) (fun r' hr' i hi => by rw [honly r' hr']; exact covers_before hi),
    pieces_run hr (by omega) (Nat.le_refl _),
    pieces_plain (by omega) hn
      (fun r' hr' i hi _ => by rw [honly r' hr']; exact covers_behind hi)]
  simp

end In6Addr

theorem inet_ntop6_plain {addr : In6Addr} (h : ZeroRun.best addr.words = none) :
    inet_ntop6 addr = joinWords addr.words := by
  rw [inet_ntop6, if_neg (by simp [In6Addr.embedsIPv4, h]), List.range_eq_range',
    In6Addr.pieces_head (Nat.le_refl 8) (by simp [h]), List.take_of_length_le (by simp [addr.size])]
  simp [In6Addr.trailingRun, h]

/-- The words before the run, and those behind it. -/
theorem inet_ntop6_gap {addr : In6Addr} {r : ZeroRun} (hr : ZeroRun.best addr.words = some r)
    (hle : r.base + r.len ≤ 8) (hemb : addr.embedsIPv4 = false) :
    inet_ntop6 addr = joinWords (addr.words.take r.base) ++ ':' :: ':' ::
      joinWords (addr.words.drop (r.base + r.len)) := by
  have hall : (addr.words.drop (r.base + r.len)).take (8 - (r.base + r.len))
      = addr.words.drop (r.base + r.len) := List.take_of_length_le (by simp [addr.size])
  have hpieces := In6Addr.pieces_around hr hle
    (show r.base + r.len + (8 - (r.base + r.len)) ≤ 8 by omega)
  rw [hall, Nat.add_sub_cancel' hle] at hpieces
  rw [inet_ntop6, if_neg (by simp [hemb]), hpieces]
  cases hrest : addr.words.drop (r.base + r.len) with
  | nil =>
      have hend : r.base + r.len = 8 := by
        have := List.drop_eq_nil_iff.mp hrest
        rw [addr.size] at this
        omega
      simp [In6Addr.trailingRun, hr, hend, colonWords, joinWords]
  | cons w ws =>
      have hend : r.base + r.len ≠ 8 := by
        intro hend
        rw [hend, List.drop_of_length_le (by simp [addr.size])] at hrest
        cases hrest
      simp [In6Addr.trailingRun, hr, hend, colonWords_cons]

/-- With an IPv4 address embedded, nothing or `ffff` stands between the run
and the dotted tail. -/
theorem inet_ntop6_dotted {addr : In6Addr} {r : ZeroRun} (hr : ZeroRun.best addr.words = some r)
    (hemb : addr.embedsIPv4 = true) :
    r.base = 0 ∧ (r.len = 6 ∨ r.len = 5 ∧ addr.word 5 = 0xffff) ∧
      inet_ntop6 addr = ':' :: (colonWords ((addr.words.drop r.len).take (6 - r.len)) ++
        ':' :: inet_ntop4 addr.tail) := by
  have hcases : r.base = 0 ∧ (r.len = 6 ∨ r.len = 5 ∧ addr.word 5 = 0xffff) := by
    simpa [In6Addr.embedsIPv4, hr] using hemb
  obtain ⟨hbase, hlen⟩ := hcases
  refine ⟨hbase, hlen, ?_⟩
  have hpieces := In6Addr.pieces_around hr (show r.base + r.len ≤ 8 by omega)
    (show r.base + r.len + (6 - r.len) ≤ 8 by omega)
  rw [show r.base + r.len + (6 - r.len) = 6 by omega, hbase, Nat.zero_add] at hpieces
  rw [inet_ntop6, if_pos hemb, hpieces]
  rfl

/-! ## What is read back -/

/-- An octet is read up to whatever ends it. -/
theorem inet_pton4_read_formatU (done : List UInt8) {n : Nat} (hn : n ≤ 255) (rest : List Char) :
    inet_pton4.read done none (formatU n ++ rest) = inet_pton4.read done (some n) rest := by
  have hdigit : ∀ k < 10, ('0' ≤ k.digitChar ∧ k.digitChar ≤ '9') ∧ k.digitChar.toNat - 48 = k := by
    decide
  rw [formatU]
  induction n using digits_induction (show 1 < 10 by decide) generalizing rest with
  | hdigit n hlt =>
      obtain ⟨hch, hval⟩ := hdigit n hlt
      rw [Nat.toDigits_of_lt_base hlt, List.cons_append, inet_pton4.read, if_pos hch, hval]
      simp [show ¬ n > 255 by omega]
  | hstep n hge ih =>
      -- no zero is in hand, so the digit that is read next is allowed
      have hmod : n % 10 < 10 := Nat.mod_lt n (by decide)
      obtain ⟨hch, hval⟩ := hdigit (n % 10) hmod
      rw [Nat.toDigits_of_base_le (by decide) hge, List.append_assoc, ih (by omega),
        List.cons_append, inet_pton4.read, if_pos hch, hval]
      have hnew : 10 * (n / 10) + n % 10 = n := Nat.div_add_mod n 10
      have hzero : n / 10 ≠ 0 := by omega
      simp [hnew, hzero, show ¬ n > 255 by omega]

theorem inet_pton4_inet_ntop4 (addr : In4Addr) : inet_pton4 (inet_ntop4 addr) = some addr := by
  have hbyte : ∀ x : UInt8, x.toNat ≤ 255 := fun x => by have := x.toNat_lt; omega
  have hdot : ∀ (done : List UInt8) (x : UInt8) (rest : List Char), done.length ≠ 3 →
      inet_pton4.read done none (formatU x.toNat ++ '.' :: rest)
        = inet_pton4.read (done ++ [x]) none rest := by
    intro done x rest hlen
    rw [inet_pton4_read_formatU done (hbyte x), inet_pton4.read, if_neg (by decide), if_pos rfl]
    simp [hlen]
  have hlast := inet_pton4_read_formatU [addr.a, addr.b, addr.c] (hbyte addr.d) []
  rw [List.append_nil] at hlast
  simp only [inet_pton4, inet_ntop4, List.append_assoc, List.cons_append]
  rw [hdot [] _ _ (by simp), hdot _ _ _ (by simp), hdot _ _ _ (by simp)]
  refine hlast.trans ?_
  simp [inet_pton4.read]

namespace Pton6

/-- Digits are read into the word in hand. -/
theorem read_digits (cs : List Char) {s : Pton6} {v : Nat}
    (hv : digitsValue 16 s.val cs = some v) (hlen : s.xdigitsSeen + cs.length ≤ 4)
    (rest : List Char) :
    read s (cs ++ rest)
      = read { s with val := v, xdigitsSeen := s.xdigitsSeen + cs.length } rest := by
  induction cs generalizing s with
  | nil =>
      rw [← Option.some.inj hv]
      rfl
  | cons c cs ih =>
      rw [digitsValue] at hv
      obtain ⟨d, hd, hv⟩ := Option.bind_eq_some_iff.mp hv
      rw [List.length_cons] at hlen
      have hfour : s.xdigitsSeen ≠ 4 := by omega
      have hnext : read s (c :: (cs ++ rest))
          = read { s with val := 16 * s.val + d, xdigitsSeen := s.xdigitsSeen + 1 }
              (cs ++ rest) := by
        rw [read]
        simp only [hd]
        rw [if_neg hfour]
      rw [List.cons_append, hnext, ih hv (by simp only; omega)]
      simp only [List.length_cons, show s.xdigitsSeen + 1 + cs.length
        = s.xdigitsSeen + (cs.length + 1) by omega]

/-- A word is in hand, behind the others. -/
structure Holding (words : List UInt16) (colonp : Option Nat) (s : Pton6) : Prop where
  digits : s.xdigitsSeen ≠ 0
  words : s.tmp ++ [UInt16.ofNat s.val] = words
  colonp : s.colonp = colonp

theorem read_word (tmp : List UInt16) (colonp : Option Nat) (tok : List Char) (w : UInt16)
    (rest : List Char) :
    ∃ s, Holding (tmp ++ [w]) colonp s ∧
      read ⟨tmp, colonp, 0, 0, tok⟩ (formatX w.toNat ++ rest) = read s rest := by
  have hlen := length_formatX_word w
  have hne : (formatX w.toNat).length ≠ 0 := fun h =>
    Nat.toDigits_ne_nil (List.length_eq_zero_iff.mp h)
  have hread := read_digits (formatX w.toNat) (s := ⟨tmp, colonp, 0, 0, tok⟩)
    (digitsValue_toDigits (by decide) (by decide) w.toNat) (by simpa using hlen) rest
  refine ⟨_, ⟨?_, ?_, rfl⟩, hread⟩
  · simpa using hne
  · simp

/-- A colon that does not end the text stores the word in hand. -/
theorem Holding.read_colon {words : List UInt16} {colonp : Option Nat} {s : Pton6}
    (h : Holding words colonp s) (hlen : words.length ≤ 8) {rest : List Char} (hrest : rest ≠ []) :
    read s (':' :: rest) = read ⟨words, colonp, 0, 0, rest⟩ rest := by
  have htmp : ¬ s.tmp.length ≥ 8 := by
    have hw := congrArg List.length h.words
    rw [List.length_append, List.length_singleton] at hw
    omega
  rw [read]
  simp only [show digitValue ':' = none by decide, if_neg h.digits, if_neg hrest, if_neg htmp,
    h.words, h.colonp, if_true]

theorem Holding.read_colonWords {words : List UInt16} {colonp : Option Nat} {s : Pton6}
    (h : Holding words colonp s) (ws : List UInt16) (hlen : words.length + ws.length ≤ 8)
    (rest : List Char) :
    ∃ s', Holding (words ++ ws) colonp s' ∧ read s (colonWords ws ++ rest) = read s' rest := by
  induction ws generalizing words s with
  | nil => exact ⟨s, by rwa [List.append_nil], rfl⟩
  | cons w ws ih =>
      rw [List.length_cons] at hlen
      obtain ⟨s₁, hs₁, hread⟩ := read_word words colonp
        (formatX w.toNat ++ (colonWords ws ++ rest)) w (colonWords ws ++ rest)
      obtain ⟨s', hs', hread'⟩ := ih hs₁ (by simp; omega)
      refine ⟨s', by rwa [List.append_assoc] at hs', ?_⟩
      rw [colonWords_cons, joinWords, List.cons_append, List.append_assoc,
        h.read_colon (by omega) (by simp [formatX, Nat.toDigits_ne_nil]), hread, hread']

theorem Holding.store {words : List UInt16} {colonp : Option Nat} {s : Pton6}
    (h : Holding words colonp s) (hlen : words.length ≤ 8) : s.store = some words := by
  have htmp : ¬ s.tmp.length ≥ 8 := by
    have hw := congrArg List.length h.words
    rw [List.length_append, List.length_singleton] at hw
    omega
  rw [Pton6.store, if_neg h.digits, if_neg htmp, h.words]

/-- What is stored at the end, filled up. -/
theorem finish_eq {s : Pton6} {tmp : List UInt16} {addr : In6Addr} (hstore : s.store = some tmp)
    (hexpand : expand tmp s.colonp = some addr.words) : s.finish = some addr := by
  simp [finish, hstore, hexpand, addr.size]

/-- Words up to the end of the text. -/
theorem read_joinWords {tmp ws : List UInt16} {colonp : Option Nat} {addr : In6Addr}
    (tok : List Char) (hlen : tmp.length + ws.length ≤ 8)
    (hexpand : expand (tmp ++ ws) colonp = some addr.words) :
    read ⟨tmp, colonp, 0, 0, tok⟩ (joinWords ws) = some addr := by
  cases ws with
  | nil =>
      rw [List.append_nil] at hexpand
      exact finish_eq (by rw [Pton6.store, if_pos rfl]) hexpand
  | cons w ws =>
      rw [List.length_cons] at hlen
      obtain ⟨s₁, hs₁, hread⟩ := read_word tmp colonp tok w (colonWords ws)
      obtain ⟨s, hs, hread'⟩ := hs₁.read_colonWords ws (by simp; omega) []
      rw [List.append_nil] at hread'
      rw [List.append_assoc] at hs
      rw [joinWords, hread, hread']
      exact finish_eq (hs.store (by simp; omega)) (by rw [hs.colonp]; exact hexpand)

/-- The two colons of the run. -/
theorem read_gap {words : List UInt16} {s : Pton6} (h : Holding words none s)
    (hlen : words.length ≤ 8) (rest : List Char) :
    read s (':' :: ':' :: rest) = read ⟨words, some words.length, 0, 0, rest⟩ rest := by
  rw [h.read_colon hlen (by simp), read]
  simp [show digitValue ':' = none by decide]

theorem wordOfBytes_split (w : UInt16) :
    wordOfBytes (w >>> 8).toUInt8 w.toUInt8 = w := by
  have hw := w.toNat_lt
  refine UInt16.toNat_inj.mp ?_
  rw [wordOfBytes, UInt16.toNat_ofNat', UInt16.toNat_toUInt8, UInt16.toNat_toUInt8,
    UInt16.toNat_shiftRight]
  simp only [show (8 : UInt16).toNat % 16 = 8 by rfl, Nat.shiftRight_eq_div_pow]
  omega

/-- A dotted tail, read a first time as digits of a word and then again. -/
theorem read_inet_ntop4 (tmp : List UInt16) (colonp : Option Nat) (t : In4Addr)
    (hlen : tmp.length ≤ 6) :
    read ⟨tmp, colonp, 0, 0, inet_ntop4 t⟩ (inet_ntop4 t) =
      expand (tmp ++ [wordOfBytes t.a t.b, wordOfBytes t.c t.d]) colonp >>= fun tmp =>
        if h : tmp.length = 8 then some ⟨tmp, h⟩ else none := by
  obtain ⟨v, hv⟩ : ∃ v, digitsValue 16 0 (formatU t.a.toNat) = some v :=
    digitsValue_of_digits 16 0 fun c hc => by
      obtain ⟨d, _, hd⟩ := digitValue_of_mem_toDigits (by decide) (by decide) t.a.toNat c hc
      exact ⟨d, hd⟩
  obtain ⟨rest, hrest⟩ : ∃ rest, inet_ntop4 t = formatU t.a.toNat ++ '.' :: rest := by
    simp [inet_ntop4]
  have h3 := length_formatU_byte t.a
  have hread := read_digits _ (s := ⟨tmp, colonp, 0, 0, inet_ntop4 t⟩) hv (by simp only; omega)
    ('.' :: rest)
  rw [← hrest] at hread
  rw [hread, read]
  simp only [show digitValue '.' = none by decide, show ¬ '.' = ':' by decide, if_false,
    show tmp.length + 2 ≤ 8 by omega, and_self, if_true, inet_pton4_inet_ntop4]
  rfl

theorem read_dotted {tmp : List UInt16} {colonp : Option Nat} {addr : In6Addr} {t : In4Addr}
    (hlen : tmp.length ≤ 6)
    (hexpand : expand (tmp ++ [wordOfBytes t.a t.b, wordOfBytes t.c t.d]) colonp
      = some addr.words) :
    read ⟨tmp, colonp, 0, 0, inet_ntop4 t⟩ (inet_ntop4 t) = some addr := by
  rw [read_inet_ntop4 tmp colonp t hlen, hexpand]
  exact dif_pos addr.size

end Pton6

theorem inet_pton6_of_digit {c : Char} {cs : List Char} {d : Nat} (h : digitValue c = some d) :
    inet_pton6 (c :: cs) = Pton6.read ⟨[], none, 0, 0, c :: cs⟩ (c :: cs) := by
  have hc : c ≠ ':' := by
    intro hc
    rw [hc] at h
    cases h
  unfold inet_pton6
  split
  · next heq => exact absurd (List.cons.inj heq).1 hc
  · next heq => cases heq
  · next heq => exact absurd (List.cons.inj heq).1 hc
  · rfl

/-- The text that begins with a word. -/
theorem inet_pton6_joinWords (w : UInt16) (ws : List UInt16) (rest : List Char) :
    ∃ tok, inet_pton6 (joinWords (w :: ws) ++ rest)
      = Pton6.read ⟨[], none, 0, 0, tok⟩ (joinWords (w :: ws) ++ rest) := by
  obtain ⟨c, cs, d, htext, hd⟩ := toDigits_cons (b := 16) (by decide) (by decide) w.toNat
  rw [joinWords, formatX, htext]
  exact ⟨_, inet_pton6_of_digit hd⟩

/-- Up to the end of the run of zeros, however many words stand before it. -/
theorem inet_pton6_gap (ws : List UInt16) (hlen : ws.length ≤ 8) (rest : List Char) :
    inet_pton6 (joinWords ws ++ ':' :: ':' :: rest)
      = Pton6.read ⟨ws, some ws.length, 0, 0, rest⟩ rest := by
  cases ws with
  | nil =>
      show Pton6.read ⟨[], none, 0, 0, ':' :: rest⟩ (':' :: rest) = _
      rw [Pton6.read]
      simp [show digitValue ':' = none by decide]
  | cons w ws =>
      rw [List.length_cons] at hlen
      obtain ⟨tok, htok⟩ := inet_pton6_joinWords w ws (':' :: ':' :: rest)
      obtain ⟨s₁, hs₁, hread⟩ := Pton6.read_word [] none tok w
        (colonWords ws ++ ':' :: ':' :: rest)
      obtain ⟨s, hs, hread'⟩ := hs₁.read_colonWords ws (by simp; omega)
        (':' :: ':' :: rest)
      rw [htok, joinWords, List.append_assoc, hread, hread']
      exact Pton6.read_gap hs (by simp; omega) rest

theorem wordOfBytes_tail (addr : In6Addr) :
    [Pton6.wordOfBytes addr.tail.a addr.tail.b, Pton6.wordOfBytes addr.tail.c addr.tail.d]
      = addr.words.drop 6 := by
  have hsize := addr.size
  rw [List.drop_eq_getElem_cons (by omega), List.drop_eq_getElem_cons (by omega),
    List.drop_of_length_le (by omega)]
  simp only [In6Addr.tail, Pton6.wordOfBytes_split]
  rw [In6Addr.word_eq (by omega), In6Addr.word_eq (by omega)]

/-- The dotted form, right behind the `::` or behind `ffff`. -/
theorem inet_pton6_dotted {addr : In6Addr} {r : ZeroRun} (hr : ZeroRun.best addr.words = some r)
    (hemb : addr.embedsIPv4 = true)
    (hexpand : Pton6.expand (addr.words.drop r.len) (some 0) = some addr.words) :
    inet_pton6 (inet_ntop6 addr) = some addr := by
  have hsize := addr.size
  obtain ⟨_, hcases, htext⟩ := inet_ntop6_dotted hr hemb
  have hgap := fun rest => inet_pton6_gap [] (by simp) rest
  rw [htext]
  rcases hcases with hsix | ⟨hfive, hword⟩
  · rw [hsix] at hexpand ⊢
    refine (hgap (inet_ntop4 addr.tail)).trans (Pton6.read_dotted (by simp) ?_)
    rw [List.nil_append, wordOfBytes_tail]
    exact hexpand
  · rw [hfive] at hexpand ⊢
    have hdrop : addr.words.drop 5 = 0xffff :: addr.words.drop 6 := by
      rw [List.drop_eq_getElem_cons (by omega), ← In6Addr.word_eq (by omega), hword]
    obtain ⟨s, hs, hread⟩ := Pton6.read_word [] (some 0)
      (formatX (0xffff : UInt16).toNat ++ ':' :: inet_ntop4 addr.tail) 0xffff
      (':' :: inet_ntop4 addr.tail)
    have hnil : inet_ntop4 addr.tail ≠ [] := by simp [inet_ntop4]
    rw [hdrop]
    refine (hgap _).trans (hread.trans ((hs.read_colon (by simp) hnil).trans ?_))
    refine Pton6.read_dotted (by simp) ?_
    rw [wordOfBytes_tail, List.nil_append, List.singleton_append, ← hdrop]
    exact hexpand

theorem inet_pton6_inet_ntop6 (addr : In6Addr) : inet_pton6 (inet_ntop6 addr) = some addr := by
  have hsize := addr.size
  cases hr : ZeroRun.best addr.words with
  | none =>
      rw [inet_ntop6_plain hr]
      obtain ⟨w, ws, hws⟩ : ∃ w ws, addr.words = w :: ws :=
        List.exists_cons_of_length_pos (by omega)
      obtain ⟨tok, htok⟩ := inet_pton6_joinWords w ws []
      rw [List.append_nil] at htok
      rw [hws, htok]
      refine Pton6.read_joinWords tok ?_ ?_
      · rw [← hws]
        simp [hsize]
      · rw [← hws]
        rfl
  | some r =>
      obtain ⟨hwithin, hlen⟩ := ZeroRun.best_within hr
      obtain ⟨hle, hsplit⟩ := hwithin.split (by omega)
      rw [hsize] at hle
      have hbefore : (addr.words.take r.base).length = r.base := by simp; omega
      -- what stands around the run, filled up with zeros
      have hexpand : Pton6.expand
          (addr.words.take r.base ++ addr.words.drop (r.base + r.len)) (some r.base)
            = some addr.words := by
        have hcount : 8 - (addr.words.take r.base
            ++ addr.words.drop (r.base + r.len)).length = r.len := by
          rw [List.length_append, hbefore, List.length_drop]
          omega
        rw [Pton6.expand, if_neg (by omega), hcount, List.take_left' hbefore,
          List.drop_left' hbefore, ← hsplit]
      cases hemb : addr.embedsIPv4 with
      | false =>
          rw [inet_ntop6_gap hr hle hemb, inet_pton6_gap _ (by omega), hbefore]
          exact Pton6.read_joinWords _ (by rw [List.length_drop]; omega) hexpand
      | true =>
          have hbase := (inet_ntop6_dotted hr hemb).1
          rw [hbase, List.take_zero, List.nil_append, Nat.zero_add] at hexpand
          exact inet_pton6_dotted hr hemb hexpand

/-! ## The characters of an address -/

theorem digit_of_mem_formatU {n : Nat} {c : Char} (h : c ∈ formatU n) :
    (digitValue c).isSome = true := by
  obtain ⟨d, _, hd⟩ := digitValue_of_mem_toDigits (by decide) (by decide) n c h
  simp [hd]

theorem digit_of_mem_formatX {n : Nat} {c : Char} (h : c ∈ formatX n) :
    (digitValue c).isSome = true := by
  obtain ⟨d, _, hd⟩ := digitValue_of_mem_toDigits (by decide) (by decide) n c h
  simp [hd]

theorem mem_inet_ntop4 {addr : In4Addr} {c : Char} (h : c ∈ inet_ntop4 addr) :
    (digitValue c).isSome = true ∨ c = '.' := by
  simp only [inet_ntop4, List.mem_append, List.mem_cons] at h
  rcases h with ((h | h | h) | h | h) | h | h
  all_goals first
    | exact .inr h
    | exact .inl (digit_of_mem_formatU h)

theorem mem_piece {addr : In6Addr} {i : Nat} {c : Char} (h : c ∈ addr.piece i) :
    (digitValue c).isSome = true ∨ c = ':' := by
  have hword : c ∈ (if i ≠ 0 then [':'] else []) ++ formatX (addr.word i).toNat →
      (digitValue c).isSome = true ∨ c = ':' := by
    intro hc
    rcases List.mem_append.mp hc with hc | hc
    · split at hc
      · exact .inr (List.mem_singleton.mp hc)
      · cases hc
    · exact .inl (digit_of_mem_formatX hc)
  unfold In6Addr.piece at h
  split at h
  · split at h
    · split at h
      · exact .inr (List.mem_singleton.mp h)
      · cases h
    · exact hword h
  · exact hword h

theorem mem_inet_ntop6 {addr : In6Addr} {c : Char} (h : c ∈ inet_ntop6 addr) :
    (digitValue c).isSome = true ∨ c = ':' ∨ c = '.' := by
  have hpieces : ∀ n, c ∈ (List.range n).flatMap addr.piece →
      (digitValue c).isSome = true ∨ c = ':' ∨ c = '.' := by
    intro n hc
    obtain ⟨i, _, hc⟩ := List.mem_flatMap.mp hc
    rcases mem_piece hc with hc | hc
    · exact .inl hc
    · exact .inr (.inl hc)
  unfold inet_ntop6 at h
  split at h
  · rcases List.mem_append.mp h with h | h
    · exact hpieces 6 h
    · rcases List.mem_cons.mp h with h | h
      · exact .inr (.inl h)
      · rcases mem_inet_ntop4 h with h | h
        · exact .inl h
        · exact .inr (.inr h)
  · rcases List.mem_append.mp h with h | h
    · exact hpieces 8 h
    · split at h
      · exact .inr (.inl (List.mem_singleton.mp h))
      · cases h

/-- An IPv6 address has a colon in it. -/
theorem colon_mem_inet_ntop6 (addr : In6Addr) : ':' ∈ inet_ntop6 addr := by
  have hsize := addr.size
  cases hr : ZeroRun.best addr.words with
  | none =>
      rw [inet_ntop6_plain hr]
      obtain ⟨w, ws, hws⟩ : ∃ w ws, addr.words = w :: ws :=
        List.exists_cons_of_length_pos (by omega)
      obtain ⟨w', ws', hws'⟩ : ∃ w' ws', ws = w' :: ws' :=
        List.exists_cons_of_length_pos (by
          rw [hws, List.length_cons] at hsize
          omega)
      rw [hws, hws', joinWords, colonWords_cons]
      simp
  | some r =>
      obtain ⟨hwithin, hlen⟩ := ZeroRun.best_within hr
      obtain ⟨hle, _⟩ := hwithin.split (by omega)
      cases hemb : addr.embedsIPv4 with
      | false =>
          rw [inet_ntop6_gap hr (by omega) hemb]
          simp
      | true =>
          rw [(inet_ntop6_dotted hr hemb).2.2]
          exact List.mem_cons_self

/-- Without a NUL, the text is all of the C string. -/
theorem InetAddress.c_str_ofList {cs : List Char} (h : ∀ c ∈ cs, c ≠ '\x00') :
    c_str (String.ofList cs) = cs := by
  have htake : (cs ++ []).takeWhile (fun c => decide (c ≠ '\x00'))
      = cs ++ [].takeWhile fun c => decide (c ≠ '\x00') :=
    List.takeWhile_append_of_pos fun c hc => decide_eq_true (h c hc)
  simpa [c_str] using htake

/-- An IPv4 address begins with a digit. -/
theorem inet_ntop4_cons (addr : In4Addr) :
    ∃ c cs d, inet_ntop4 addr = c :: cs ∧ digitValue c = some d := by
  obtain ⟨c, cs, d, htext, hd⟩ := toDigits_cons (b := 10) (by decide) (by decide) addr.a.toNat
  simp only [inet_ntop4, formatU, htext, List.cons_append]
  exact ⟨c, _, d, rfl, hd⟩

/-- Dotted decimal is no IPv6 address: too few words come out. -/
theorem inet_pton6_inet_ntop4 (addr : In4Addr) : inet_pton6 (inet_ntop4 addr) = none := by
  have hread := Pton6.read_inet_ntop4 [] none addr (by simp)
  obtain ⟨c, cs, d, htext, hd⟩ := inet_ntop4_cons addr
  rw [htext] at hread ⊢
  rw [inet_pton6_of_digit hd, hread]
  rfl

namespace InetAddress

theorem toIp_eq (addr : InetAddress) :
    addr.toIp = .ok (String.ofList (match addr with
      | .v4 addr _ => inet_ntop4 addr
      | .v6 addr _ => inet_ntop6 addr)) := by
  cases addr with
  | v4 addr port => rfl
  | v6 addr port => rfl

/-- Taken as an IPv4 address, or as an IPv6 address, what `toIp` prints is
read as the address again; only dotted decimal that is asked to be an IPv6
address is refused. -/
theorem ofIpPort_toIp (addr : InetAddress) (ipv6 : Bool) :
    ∃ ip, addr.toIp = .ok ip ∧ ofIpPort ip addr.port ipv6 =
      match addr, ipv6 with
      | .v4 _ port, true => (.v6 in6addr_any port, some "sockets::fromIpPort")
      | addr, _ => (addr, none) := by
  refine ⟨_, addr.toIp_eq, ?_⟩
  cases addr with
  | v4 addr port =>
      have hnul : ∀ c ∈ inet_ntop4 addr, c ≠ '\x00' := by
        intro c hc h
        rcases mem_inet_ntop4 hc with hd | hd
        · rw [h] at hd
          cases hd
        · rw [h] at hd
          cases hd
      have hcolon : (inet_ntop4 addr).contains ':' = false := by
        rw [List.contains_eq_mem, decide_eq_false_iff_not]
        intro hc
        rcases mem_inet_ntop4 hc with hd | hd <;> cases hd
      simp only [ofIpPort, c_str_ofList hnul, hcolon, Bool.or_false]
      cases ipv6 with
      | false => simp [fromIpPort4, inet_pton4_inet_ntop4, InetAddress.port]
      | true => simp [fromIpPort6, inet_pton6_inet_ntop4, InetAddress.port]
  | v6 addr port =>
      have hnul : ∀ c ∈ inet_ntop6 addr, c ≠ '\x00' := by
        intro c hc h
        rcases mem_inet_ntop6 hc with hd | hd | hd
        · rw [h] at hd
          cases hd
        · rw [h] at hd
          cases hd
        · rw [h] at hd
          cases hd
      have hcolon : (inet_ntop6 addr).contains ':' = true := by
        simpa using colon_mem_inet_ntop6 addr
      simp only [ofIpPort, c_str_ofList hnul, hcolon, Bool.or_true, if_true]
      simp [fromIpPort6, inet_pton6_inet_ntop6, InetAddress.port]

/-! ## Addresses and their printed names -/

/-- The text of `toIpPort`: the whole address, a colon and the whole port. -/
def printed : InetAddress → List Char
  | .v4 addr port => inet_ntop4 addr ++ ':' :: formatU port.toNat
  | .v6 addr port => '[' :: inet_ntop6 addr ++ ']' :: ':' :: formatU port.toNat

theorem length_printed_lt (addr : InetAddress) : addr.printed.length < 64 := by
  cases addr with
  | v4 addr port =>
      have hip := length_inet_ntop4 addr
      have hp := length_formatU_port port
      simp only [printed, List.length_append, List.length_cons]
      omega
  | v6 addr port =>
      have hip := length_inet_ntop6 addr
      have hp := length_formatU_port port
      simp only [printed, List.length_append, List.length_cons]
      omega

/-- Nothing is cut off. -/
theorem toIpPort_eq (addr : InetAddress) : addr.toIpPort = .ok (String.ofList addr.printed) := by
  cases addr with
  | v4 addr port =>
      have hip := length_inet_ntop4 addr
      have hp := length_formatU_port port
      have hfit : snprintf (64 - (inet_ntop4 addr).length) (':' :: formatU port.toNat)
          = ':' :: formatU port.toNat :=
        List.take_of_length_le (by rw [List.length_cons]; omega)
      rw [printed, ← hfit]
      refine bind_eq_ok.mpr ⟨_, bind_eq_ok.mpr ⟨_, rfl,
        assertThat_bind_eq_ok.mpr ⟨?_, rfl⟩⟩, rfl⟩
      omega
  | v6 addr port =>
      have hip := length_inet_ntop6 addr
      have hp := length_formatU_port port
      have hfit : snprintf (64 - ('[' :: inet_ntop6 addr).length) (']' :: ':' :: formatU port.toNat)
          = ']' :: ':' :: formatU port.toNat :=
        List.take_of_length_le (by simp only [List.length_cons]; omega)
      rw [printed, ← hfit]
      refine bind_eq_ok.mpr ⟨_, bind_eq_ok.mpr ⟨_, rfl,
        assertThat_bind_eq_ok.mpr ⟨?_, rfl⟩⟩, rfl⟩
      rw [List.length_cons]
      omega

/-- Where a separator ends two texts that do not have it, they are the same. -/
theorem append_sep_inj {c : Char} {xs ys xs' ys' : List Char} (hxs : c ∉ xs) (hys : c ∉ ys)
    (h : xs ++ c :: xs' = ys ++ c :: ys') : xs = ys ∧ xs' = ys' := by
  have hxs' : ∀ a ∈ xs, (fun a => decide (a ≠ c)) a = true := fun a ha =>
    decide_eq_true (ne_of_mem_of_not_mem ha hxs)
  have hys' : ∀ a ∈ ys, (fun a => decide (a ≠ c)) a = true := fun a ha =>
    decide_eq_true (ne_of_mem_of_not_mem ha hys)
  have htake := congrArg (List.takeWhile fun a => decide (a ≠ c)) h
  rw [List.takeWhile_append_of_pos hxs', List.takeWhile_append_of_pos hys'] at htake
  simp only [List.takeWhile_cons, ne_eq, not_true_eq_false, decide_false, Bool.false_eq_true,
    if_false, List.append_nil] at htake
  subst htake
  have htail := List.append_cancel_left h
  exact ⟨rfl, (List.cons.inj htail).2⟩

theorem formatU_port_injective {p q : UInt16} (h : formatU p.toNat = formatU q.toNat) : p = q :=
  UInt16.toNat_inj.mp (toDigits_injective (by decide) (by decide) h)

theorem printed_v4_ne_v6 (addr : In4Addr) (port : UInt16) (addr' : In6Addr) (port' : UInt16) :
    printed (.v4 addr port) ≠ printed (.v6 addr' port') := by
  intro h
  obtain ⟨c, cs, d, htext, hd⟩ := inet_ntop4_cons addr
  simp only [printed, htext, List.cons_append] at h
  rw [(List.cons.inj h).1] at hd
  cases hd

theorem printed_injective {a b : InetAddress} (h : a.printed = b.printed) : a = b := by
  cases a with
  | v4 a p =>
      cases b with
      | v4 b q =>
          have hsep : ∀ addr : In4Addr, ':' ∉ inet_ntop4 addr := by
            intro addr hc
            rcases mem_inet_ntop4 hc with hd | hd <;> cases hd
          obtain ⟨hip, hport⟩ := append_sep_inj (hsep a) (hsep b) h
          have haddr := congrArg inet_pton4 hip
          rw [inet_pton4_inet_ntop4, inet_pton4_inet_ntop4] at haddr
          rw [Option.some.inj haddr, formatU_port_injective hport]
      | v6 b q => exact absurd h (printed_v4_ne_v6 a p b q)
  | v6 a p =>
      cases b with
      | v4 b q => exact absurd h.symm (printed_v4_ne_v6 b q a p)
      | v6 b q =>
          have hsep : ∀ addr : In6Addr, ']' ∉ '[' :: inet_ntop6 addr := by
            intro addr hc
            rcases List.mem_cons.mp hc with hc | hc
            · cases hc
            · rcases mem_inet_ntop6 hc with hd | hd | hd <;> cases hd
          obtain ⟨hip, hport⟩ := append_sep_inj (hsep a) (hsep b) h
          have haddr := congrArg inet_pton6 (List.cons.inj hip).2
          rw [inet_pton6_inet_ntop6, inet_pton6_inet_ntop6] at haddr
          rw [Option.some.inj haddr, formatU_port_injective (List.cons.inj hport).2]

/-- Every address is printed in full, with room for the null byte, and no two
are printed alike. -/
theorem toIpPort_eq_iff (a b : InetAddress) :
    (a.toIpPort = .ok (String.ofList a.printed) ∧ a.printed.length < 64) ∧
      (a.toIpPort = b.toIpPort ↔ a = b) := by
  refine ⟨⟨a.toIpPort_eq, a.length_printed_lt⟩, ⟨fun h => ?_, fun h => by rw [h]⟩⟩
  rw [a.toIpPort_eq, b.toIpPort_eq] at h
  exact printed_injective (String.ofList_inj.mp (Except.ok.inj h))

end InetAddress

end Libanet.Net
