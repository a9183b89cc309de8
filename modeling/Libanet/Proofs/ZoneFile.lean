import Libanet.Base.TimeZoneFile

/-!
# Reading back a zone file

`TzFile` is a TZif file as RFC 8536 lays it out, and `TzFile.encode` are its
bytes. Reader by reader, the code is checked against them. Headers, counts,
times, offsets and names come out as they went in, the first block of a
version 2 file is skipped to the byte, and so is what the code does not want
of the second.

The exception is `readUint8`. It hands its one byte to `be64toh`, which on a
little-endian machine moves it to the top of eight bytes, and answers with the
lowest: zero, whatever the byte was. So all transitions go to the first type,
and no type is daylight saving time or has a name but the first. The zone
that comes out is `TzBlock.zeroed`, which is the one that went in only if
there was nothing in those bytes.
-/

namespace Libanet

open Net (ByteOrder)
open ByteReader (fread fseek readToEnd many)

/-! ## The format -/

structure TzBlock where
  /-- Times, with the index of the type they go to. -/
  transitions : List (Int × Nat)
  types : List LocalTime
  abbreviation : List UInt8
  /-- Leap seconds: times and corrections. -/
  leaps : List (Int × Int) := []
  isstd : List UInt8 := []
  isut : List UInt8 := []

namespace TzBlock

def counts (b : TzBlock) : List UInt8 :=
  bytesBE 4 b.isut.length ++ (bytesBE 4 b.isstd.length ++ (bytesBE 4 b.leaps.length ++
    (bytesBE 4 b.transitions.length ++ (bytesBE 4 b.types.length ++
      bytesBE 4 b.abbreviation.length))))

/-- A header, with the counts of the block that follows it. -/
def header (version : UInt8) (b : TzBlock) : List UInt8 :=
  TZif ++ ([version] ++ (List.replicate 15 0 ++ b.counts))

def encodeType (lt : LocalTime) : List UInt8 :=
  bytesBE 4 lt.utcOffset ++ [if lt.isDst then 1 else 0, UInt8.ofNat lt.desigIdx]

def encode (timeSize : Nat) (b : TzBlock) : List UInt8 :=
  b.transitions.flatMap (fun t => bytesBE timeSize t.1) ++
    (b.transitions.flatMap (fun t => [UInt8.ofNat t.2]) ++
      (b.types.flatMap encodeType ++ (b.abbreviation ++
        (b.leaps.flatMap (fun l => bytesBE timeSize l.1 ++ bytesBE 4 l.2) ++
          (b.isstd ++ b.isut)))))

end TzBlock

inductive TzFile where
  | v1 (block : TzBlock)
  | v2 (front block : TzBlock) (footer : List UInt8)

namespace TzFile

def encode : TzFile → List UInt8
  | v1 block => block.header 0 ++ block.encode 4
  | v2 front block footer =>
      front.header 0x32 ++ (front.encode 4 ++ (block.header 0x32 ++ (block.encode 8 ++
        ([0x0a] ++ (footer ++ [0x0a])))))

/-- The block that is read. -/
def block : TzFile → TzBlock
  | v1 block => block
  | v2 _ block _ => block

def isV1 : TzFile → Bool
  | v1 _ => true
  | v2 _ _ _ => false

def timeBits : TzFile → Nat
  | v1 _ => 32
  | v2 _ _ _ => 64

/-- The zone in a file, whose counts have four bytes. The block in front of a
version 2 file may be any. -/
structure WellFormed (z : TzFile) : Prop where
  nonempty : z.block.types ≠ []
  types : z.block.types.length ≤ 255
  type : ∀ lt ∈ z.block.types, Fits 32 lt.utcOffset ∧ lt.desigIdx < 256
  transitions : z.block.transitions.length < 4294967296
  transition : ∀ t ∈ z.block.transitions,
    Fits z.timeBits t.1 ∧ t.2 < z.block.types.length
  abbreviation : z.block.abbreviation.length < 4294967296
  leaps : z.block.leaps = []
  isstd : z.block.isstd.length = 0 ∨ z.block.isstd.length = z.block.types.length
  isut : z.block.isut.length = 0 ∨ z.block.isut.length = z.block.types.length

end TzFile

/-! ## Numbers -/

theorem reads_readExactly {n : Nat} {bytes : List UInt8} (what : String) (after : List UInt8)
    (h : bytes.length = n) : Reads (readExactly n what) bytes after bytes := by
  intro f hf
  rw [readExactly, bind_apply (reads_fread after h f hf), if_neg (not_not.mpr h)]
  rfl

theorem reads_readBytes {n : Int} {bytes : List UInt8} (after : List UInt8)
    (h : (bytes.length : Int) = n) : Reads (readBytes n) bytes after bytes := by
  rw [readBytes, if_neg (by omega)]
  exact reads_readExactly _ after (by omega)

theorem toInt_ofInt {w : Nat} (hpos : 0 < w) {v : Int} (hv : Fits w v) :
    (BitVec.ofInt w v).toInt = v := by
  obtain ⟨n, rfl⟩ : ∃ n, w = n + 1 := ⟨w - 1, by omega⟩
  obtain ⟨hl, hu⟩ := hv
  rw [Nat.add_sub_cancel] at hl hu
  rw [BitVec.toInt_ofInt]
  apply Int.bmod_eq_of_le
  · rw [Nat.pow_succ]
    push_cast
    omega
  · rw [Nat.pow_succ]
    push_cast
    omega

/-- Whatever the host, the bytes of a number are read as its two's complement. -/
theorem betoh_object_bytesBE (host : ByteOrder) {w : Nat} (hw : 8 ∣ w) (v : Int) :
    host.betoh (host.object w (bytesBE (w / 8) v)) = BitVec.ofInt w v := by
  have hvalue := valueBE_bytesBE (w / 8) v
  have hlt := valueBE_lt (bytesBE (w / 8) v)
  have hpow : (256 : Int) ^ (w / 8) = (2 ^ w : Nat) := by exact_mod_cast ByteOrder.pow_bytes hw
  rw [length_bytesBE, ByteOrder.pow_bytes hw] at hlt
  rw [hpow] at hvalue
  rw [host.betoh_object hw (length_bytesBE _ _)]
  apply BitVec.eq_of_toNat_eq
  rw [BitVec.toNat_ofNat, Nat.mod_eq_of_lt hlt, BitVec.toNat_ofInt, ← hvalue,
    Int.toNat_natCast]

theorem reads_readInt32 (host : ByteOrder) {v : Int} (hv : Fits 32 v) (after : List UInt8) :
    Reads (readInt32 host) (bytesBE 4 v) after v := by
  have hread := reads_readExactly "bad int32_t data" after (length_bytesBE 4 v)
  have hobject := betoh_object_bytesBE host (w := 32) (by decide) v
  exact hread.bind_pure ((congrArg BitVec.toInt hobject).trans (toInt_ofInt (by decide) hv))

theorem reads_readInt64 (host : ByteOrder) {v : Int} (hv : Fits 64 v) (after : List UInt8) :
    Reads (readInt64 host) (bytesBE 8 v) after v := by
  have hread := reads_readExactly "bad int64_t data" after (length_bytesBE 8 v)
  have hobject := betoh_object_bytesBE host (w := 64) (by decide) v
  exact hread.bind_pure ((congrArg BitVec.toInt hobject).trans (toInt_ofInt (by decide) hv))

/-- What a count is read as. -/
def asInt (n : Nat) : Int := (BitVec.ofInt 32 n).toInt

theorem asInt_of_le {n : Nat} (h : n ≤ 2147483647) : asInt n = n :=
  toInt_ofInt (by decide) (fits_int.mpr (by omega))

theorem asInt_neg {n : Nat} (hl : 2147483647 < n) (hu : n < 4294967296) : asInt n < 0 := by
  have hsize : (2 ^ 32 : Nat) = 4294967296 := rfl
  rw [asInt, BitVec.toInt_ofInt, Int.bmod_def, hsize, if_neg (by omega)]
  omega

theorem reads_count (host : ByteOrder) (n : Nat) (after : List UInt8) :
    Reads (readInt32 host) (bytesBE 4 n) after (asInt n) := by
  have hread := reads_readExactly "bad int32_t data" after (length_bytesBE 4 n)
  have hobject := betoh_object_bytesBE host (w := 32) (by decide) n
  exact hread.bind_pure (congrArg BitVec.toInt hobject)

/-- On a little-endian host `be64toh` moves the byte out of the way. -/
theorem betoh_byte (x : BitVec 8) :
    ((ByteOrder.little.betoh (x.setWidth 64)).setWidth 8).toNat = 0 := by
  have hx : x.toNat < 256 := x.isLt
  have hwide : (x.setWidth 64).toNat = x.toNat := by
    rw [BitVec.toNat_setWidth]
    omega
  have hbytes : bytesLE 8 (x.toNat : Int) =
      [UInt8.ofNat x.toNat, 0, 0, 0, 0, 0, 0, 0] := by
    have hlow : ((x.toNat : Int) % 256).toNat = x.toNat := by omega
    have hhigh : (x.toNat : Int) / 256 = 0 := by omega
    rw [bytesLE, hlow, hhigh]
    rfl
  show ((ByteOrder.bswap (x.setWidth 64)).setWidth 8).toNat = 0
  rw [ByteOrder.bswap, hwide, hbytes, BitVec.toNat_setWidth, BitVec.toNat_ofNat]
  have hlowest : (valueBE [UInt8.ofNat x.toNat, 0, 0, 0, 0, 0, 0, 0]) % 256 = 0 := by
    simp only [valueBE, List.reverse_cons, List.reverse_nil, List.nil_append,
      List.cons_append, valueLE]
    have hzero : (0 : UInt8).toNat = 0 := rfl
    omega
  omega

theorem reads_readUint8 (b : UInt8) (after : List UInt8) :
    Reads (readUint8 .little) [b] after 0 := by
  have hread := reads_readExactly "bad uint8_t data" after (show [b].length = 1 from rfl)
  exact hread.bind_pure (betoh_byte (ByteOrder.little.object 8 [b]))

/-! ## The data block -/

namespace TzBlock

/-- What the counts of a block are read as. -/
def countsOf (b : TzBlock) : TzCounts where
  isutccnt := asInt b.isut.length
  isstdcnt := asInt b.isstd.length
  leapcnt := asInt b.leaps.length
  timecnt := asInt b.transitions.length
  typecnt := asInt b.types.length
  charcnt := asInt b.abbreviation.length

variable {b : TzBlock}

theorem reads_readCounts (b : TzBlock) (host : ByteOrder) (after : List UInt8) :
    Reads (readCounts host) b.counts after b.countsOf := by
  refine (reads_count host _ _).bind ((reads_count host _ _).bind ((reads_count host _ _).bind
    ((reads_count host _ _).bind ((reads_count host _ _).bind ?_))))
  exact (reads_count host _ after).bind_pure rfl

/-- The offset of a type. -/
def offset (b : TzBlock) (i : Nat) : Int := (b.types[i]?).elim 0 LocalTime.utcOffset

/-- What the code makes of the block. -/
def zeroed (b : TzBlock) (tzstring : List UInt8) : ZoneData where
  transitions := b.transitions.map fun t => ⟨t.1, t.1 + b.offset 0, 0⟩
  localtimes := b.types.map fun lt => ⟨lt.utcOffset, false, 0⟩
  abbreviation := b.abbreviation
  tzstring := tzstring

end TzBlock

theorem reads_readLocalTimes {types : List LocalTime}
    (h : ∀ lt ∈ types, Fits 32 lt.utcOffset) (data : ZoneData) (after : List UInt8) :
    Reads (readLocalTimes .little types.length data) (types.flatMap TzBlock.encodeType) after
      { data with
        localtimes := data.localtimes ++ types.map fun lt => ⟨lt.utcOffset, false, 0⟩ } := by
  induction types generalizing data with
  | nil =>
      rw [List.map_nil, List.append_nil]
      exact Reads.pure data after
  | cons lt types ih =>
      have hlt := h lt List.mem_cons_self
      have hrest := ih (fun lt' hlt' => h lt' (List.mem_cons_of_mem lt hlt'))
        (data.addLocalTime lt.utcOffset false 0)
      simp only [ZoneData.addLocalTime, List.append_assoc, List.singleton_append] at hrest
      rw [List.flatMap_cons, TzBlock.encodeType, List.append_assoc]
      refine (reads_readInt32 .little hlt _).bind ?_
      show Reads _ ([_] ++ ([_] ++ types.flatMap TzBlock.encodeType)) after _
      exact (reads_readUint8 _ _).bind ((reads_readUint8 _ _).bind hrest)

/-- A transition to a type there is, at a local time that fits. -/
def Accepted (types : List LocalTime) (t : Int × Nat) : Prop :=
  ∃ lt, types[t.2]? = some lt ∧ Fits 64 (t.1 + lt.utcOffset)

def transitionTo (types : List LocalTime) (t : Int × Nat) : Transition :=
  ⟨t.1, t.1 + (types[t.2]?).elim 0 LocalTime.utcOffset, t.2⟩

theorem addTransition_of (data : ZoneData) {t : Int × Nat} (h : Accepted data.localtimes t) :
    data.addTransition t.1 t.2 = .ok { data with
      transitions := data.transitions ++ [transitionTo data.localtimes t] } := by
  obtain ⟨lt, hlt, hfits⟩ := h
  simp [ZoneData.addTransition, transitionTo, hlt, signed_of hfits]

/-- Transitions that are accepted are added. -/
theorem addTransitions_of {ts : List (Int × Nat)} (data : ZoneData)
    (h : ∀ t ∈ ts, Accepted data.localtimes t) : addTransitions ts data = .ok { data with
      transitions := data.transitions ++ ts.map (transitionTo data.localtimes) } := by
  induction ts generalizing data with
  | nil =>
      rw [List.map_nil, List.append_nil]
      rfl
  | cons t ts ih =>
      obtain ⟨ht, hts⟩ := List.forall_mem_cons.mp h
      rw [addTransitions, addTransition_of data ht]
      show addTransitions ts _ = _
      refine (ih _ ?_).trans ?_
      · exact hts
      · simp

/-- One whose local time does not fit stops the reader. -/
theorem addTransitions_overflow {ts : List (Int × Nat)} (lt : LocalTime) (data : ZoneData)
    (hlt : data.localtimes[0]? = some lt)
    (h : ∃ t ∈ ts, ¬ Fits 64 (t.1 + lt.utcOffset)) :
    addTransitions (ts.map fun t => (t.1, 0)) data = .error (.fault .signedOverflow) := by
  induction ts generalizing data with
  | nil =>
      obtain ⟨t, ht, -⟩ := h
      cases ht
  | cons t ts ih =>
      rw [List.map_cons, addTransitions]
      by_cases hfits : Fits 64 (t.1 + lt.utcOffset)
      · have hstep := addTransition_of data (t := (t.1, 0)) ⟨lt, hlt, hfits⟩
        rw [hstep]
        refine ih _ hlt ?_
        obtain ⟨t', ht', hnot⟩ := h
        rcases List.mem_cons.mp ht' with rfl | hmem
        · exact absurd hfits hnot
        · exact ⟨t', hmem, hnot⟩
      · have hstep : data.addTransition t.1 0 = .error (.fault .signedOverflow) := by
          simp [ZoneData.addTransition, hlt, signed, hfits]
        rw [hstep]
        rfl

theorem addTransitions_tzstring {ts : List (Int × Nat)} {data data' : ZoneData}
    (h : addTransitions ts data = .ok data') : data'.tzstring = data.tzstring := by
  induction ts generalizing data with
  | nil =>
      cases h
      rfl
  | cons t ts ih =>
      rw [addTransitions] at h
      cases hstep : data.addTransition t.1 t.2 with
      | error e =>
          rw [hstep] at h
          cases h
      | ok next =>
          rw [hstep] at h
          rw [ih h]
          unfold ZoneData.addTransition at hstep
          split at hstep
          · cases hstep
          · split at hstep
            · cases hstep
            · cases hstep
              rfl

theorem reads_reserve {n : Int} (h : 0 ≤ n) (after : List UInt8) :
    Reads (reserve n) [] after () := by
  rw [reserve, if_neg (by omega)]
  exact Reads.pure () after

theorem reads_time (host : ByteOrder) (v1 : Bool) {v : Int}
    (hv : Fits (if v1 then 32 else 64) v) (after : List UInt8) :
    Reads (if v1 then readInt32 host else readInt64 host)
      (bytesBE (if v1 then 4 else 8) v) after v := by
  cases v1 with
  | true => exact reads_readInt32 host hv after
  | false => exact reads_readInt64 host hv after

namespace TzBlock

variable {b : TzBlock}

/-- The block that is read, as far as the reader is concerned. -/
structure Readable (b : TzBlock) (v1 : Bool) : Prop where
  nonempty : b.types ≠ []
  types : b.types.length ≤ 255
  type : ∀ lt ∈ b.types, Fits 32 lt.utcOffset
  transitions : b.transitions.length < 4294967296
  time : ∀ t ∈ b.transitions, Fits (if v1 then 32 else 64) t.1
  abbreviation : b.abbreviation.length < 4294967296
  leaps : b.leaps = []
  isstd : b.isstd.length = 0 ∨ b.isstd.length = b.types.length
  isut : b.isut.length = 0 ∨ b.isut.length = b.types.length

/-- How the reader ends. The block comes out with its bytes zeroed, unless a
count is not an `int` or a local time not an `int64_t`. -/
def outcome (b : TzBlock) (tzstring : List UInt8) : Except ReadStop ZoneData :=
  if 2147483647 < b.transitions.length then .error .length_error
  else if ∀ t ∈ b.transitions, Fits 64 (t.1 + b.offset 0) then
    if 2147483647 < b.abbreviation.length then .error (.fault .outOfBounds)
    else .ok (b.zeroed tzstring)
  else .error (.fault .signedOverflow)

/-- The rest of the block, behind the transitions. -/
def tail (b : TzBlock) (tzstring : List UInt8) (data : ZoneData) : Except ReadStop ZoneData :=
  if 2147483647 < b.abbreviation.length then .error (.fault .outOfBounds)
  else .ok { data with abbreviation := b.abbreviation, tzstring := tzstring }

theorem addTransitions_eq (b : TzBlock) (hne : b.types ≠ [])
    (hint : b.transitions.length ≤ 2147483647) (tz : List UInt8) :
    (addTransitions (b.transitions.map fun t => (t.1, 0))
      { localtimes := b.types.map fun lt => ⟨lt.utcOffset, false, 0⟩ } >>= b.tail tz) =
      b.outcome tz := by
  obtain ⟨lt, lts, hcons⟩ := List.exists_cons_of_ne_nil hne
  have hoff : b.offset 0 = lt.utcOffset := by simp [offset, hcons]
  have hfirst : (b.types.map fun lt => (⟨lt.utcOffset, false, 0⟩ : LocalTime))[0]? =
      some ⟨lt.utcOffset, false, 0⟩ := by simp [hcons]
  rw [outcome, if_neg (by omega), hoff]
  by_cases hfits : ∀ t ∈ b.transitions, Fits 64 (t.1 + lt.utcOffset)
  · have haccepted : ∀ t ∈ b.transitions.map fun t => (t.1, 0),
        Accepted (b.types.map fun lt => ⟨lt.utcOffset, false, 0⟩) t := by
      intro t ht
      obtain ⟨t', ht', rfl⟩ := List.mem_map.mp ht
      exact ⟨_, hfirst, hfits t' ht'⟩
    rw [if_pos hfits, addTransitions_of { localtimes := _ } haccepted]
    show b.tail tz _ = _
    simp only [tail, zeroed, hoff, List.nil_append, List.map_map, Function.comp_def,
      transitionTo, hfirst, Option.elim_some]
  · rw [if_neg hfits, addTransitions_overflow ⟨lt.utcOffset, false, 0⟩ _ hfirst
      (by simpa using hfits)]
    rfl

theorem Readable.ends_readDataArrays {v1 : Bool} (h : b.Readable v1) {tz : List UInt8}
    (htz : v1 = true → tz = []) :
    Ends (readDataArrays .little {} v1 b.countsOf)
      (b.encode (if v1 then 4 else 8) ++ tz) [] (b.outcome tz) := by
  have htypes := h.types
  have hisstd := h.isstd
  have hisut := h.isut
  by_cases hint : 2147483647 < b.transitions.length
  · have hneg : b.countsOf.timecnt < 0 := asInt_neg hint h.transitions
    rw [outcome, if_pos hint, readDataArrays, reserve, if_pos hneg]
    intro f _
    rfl
  have htimecnt : asInt b.transitions.length = b.transitions.length := asInt_of_le (by omega)
  have htypecnt : asInt b.types.length = b.types.length := asInt_of_le (by omega)
  have hleap : (([] : List UInt8).length : Int) =
      asInt b.leaps.length * ((if v1 then 4 else 8) + 4) := by
    rw [h.leaps, asInt_of_le (by simp)]
    simp
  rw [← addTransitions_eq b h.nonempty (by omega), encode, h.leaps]
  simp only [readDataArrays, countsOf, htimecnt, htypecnt, Int.toNat_natCast,
    List.append_assoc, List.flatMap_nil, List.nil_append]
  refine (reads_reserve (by omega) _).bind_nil ?_
  refine (reads_many (fun t ht => reads_time .little v1 (h.time t ht)) _).bind ?_
  refine (reads_reserve (by omega) _).bind_nil ?_
  refine (reads_many (fun t _ => reads_readUint8 _) _).bind ?_
  refine (reads_reserve (by omega) _).bind_nil ?_
  refine (reads_readLocalTimes h.type {} _).bind ?_
  rw [List.zip_map', List.nil_append]
  refine ends_lift fun data hdata => ?_
  by_cases hchars : 2147483647 < b.abbreviation.length
  · rw [tail, if_pos hchars, readBytes, if_pos (asInt_neg hchars h.abbreviation)]
    intro f _
    rfl
  rw [tail, if_neg hchars]
  refine (reads_readBytes _ (asInt_of_le (by omega)).symm).bind ?_
  refine (reads_fseek _ hleap).bind_nil ?_
  refine (reads_fseek _ (asInt_of_le (by omega)).symm).bind ?_
  refine (reads_fseek _ (asInt_of_le (by omega)).symm).bind ?_
  cases v1 with
  | true =>
      have hnone := addTransitions_tzstring hdata
      rw [htz rfl, hnone]
      exact (Reads.pure _ []).bind_pure rfl
  | false => exact (reads_readToEnd tz).bind_pure rfl

theorem Readable.ends_readDataBlock {v1 : Bool} (h : b.Readable v1) (tz : List UInt8)
    (htz : v1 = true → tz = []) :
    Ends (readDataBlock .little {} v1) (b.counts ++ (b.encode (if v1 then 4 else 8) ++ tz)) []
      ((b.outcome tz).map some) := by
  have htypes := h.types
  have hagree : ∀ {n : Nat}, n = 0 ∨ n = b.types.length →
      ¬ (asInt n ≠ 0 ∧ asInt n ≠ b.countsOf.typecnt) := by
    rintro n (rfl | rfl) ⟨hzero, hne⟩
    · exact hzero (asInt_of_le (by omega))
    · exact hne rfl
  have hisut : ¬ (b.countsOf.isutccnt ≠ 0 ∧ b.countsOf.isutccnt ≠ b.countsOf.typecnt) :=
    hagree h.isut
  have hisstd : ¬ (b.countsOf.isstdcnt ≠ 0 ∧ b.countsOf.isstdcnt ≠ b.countsOf.typecnt) :=
    hagree h.isstd
  have hleaps : b.countsOf.leapcnt = 0 := by
    have hnone : b.leaps.length = 0 := by rw [h.leaps, List.length_nil]
    exact (congrArg asInt hnone).trans (asInt_of_le (by omega))
  refine (b.reads_readCounts .little _).bind ?_
  rw [if_neg (not_not.mpr hleaps), if_neg hisut, if_neg hisstd]
  exact (h.ends_readDataArrays htz).bind_pure some

/-! ## The file -/

theorem reads_readHead (after : List UInt8) : Reads readHead TZif after () := by
  intro f hf
  have hlen : (TZif.length : Int) = 4 := rfl
  rw [readHead, bind_apply (reads_readBytes after hlen f hf), if_neg (not_not.mpr rfl)]
  rfl

theorem length_counts (b : TzBlock) : b.counts.length = 24 := by
  simp [counts]

theorem length_encode (b : TzBlock) : (b.encode 4).length =
    5 * b.transitions.length + 6 * b.types.length + b.abbreviation.length +
      8 * b.leaps.length + b.isstd.length + b.isut.length := by
  have htypes : ∀ lt, (encodeType lt).length = 6 := fun lt => by simp [encodeType]
  simp only [encode, List.length_append, List.length_flatMap, length_bytesBE, htypes,
    List.length_singleton]
  simp
  omega

/-- The counts of a block are `int`s, and so are the products of them that
`skipOf` makes. -/
structure Sized (b : TzBlock) : Prop where
  transitions : b.transitions.length ≤ 2147483647
  types : 6 * b.types.length ≤ 2147483647
  abbreviation : b.abbreviation.length ≤ 2147483647
  leaps : 8 * b.leaps.length ≤ 2147483647
  isstd : b.isstd.length ≤ 2147483647
  isut : b.isut.length ≤ 2147483647

theorem skipOf_of {c : TzCounts} (htypes : Fits 32 (6 * c.typecnt))
    (hleaps : Fits 32 (8 * c.leapcnt)) {n : Nat} (hn : n < 9223372036854775808)
    (hsum : 4 * c.timecnt + c.timecnt + 6 * c.typecnt + c.charcnt + 8 * c.leapcnt +
      c.isstdcnt + c.isutccnt = n) : skipOf c = .ok (n : Int) := by
  have hfits : (n : Int).bmod (2 ^ 64) = n := by
    have hsize : (2 ^ 64 : Nat) = 18446744073709551616 := rfl
    rw [hsize]
    exact Int.bmod_eq_of_le (by omega) (by omega)
  rw [skipOf, signed_of htypes, signed_of hleaps, ← hfits, ← hsum]

/-- The first block of a version 2 file is skipped to the byte. -/
theorem Sized.skipOf_eq (h : b.Sized) : skipOf b.countsOf = .ok ((b.encode 4).length : Int) := by
  obtain ⟨htimes, htypes, hchars, hleaps, hisstd, hisut⟩ := h
  have hisut' : b.countsOf.isutccnt = b.isut.length := asInt_of_le hisut
  have hisstd' : b.countsOf.isstdcnt = b.isstd.length := asInt_of_le hisstd
  have hleaps' : b.countsOf.leapcnt = b.leaps.length := asInt_of_le (by omega)
  have htimes' : b.countsOf.timecnt = b.transitions.length := asInt_of_le htimes
  have htypes' : b.countsOf.typecnt = b.types.length := asInt_of_le (by omega)
  have hchars' : b.countsOf.charcnt = b.abbreviation.length := asInt_of_le hchars
  have hlen := b.length_encode
  apply skipOf_of
  · rw [htypes', fits_int]
    omega
  · rw [hleaps', fits_int]
    omega
  · omega
  · omega

end TzBlock

namespace TzFile

open TzBlock (reads_readHead reads_readCounts length_counts)

variable {z : TzFile}

/-- The block in front of a version 2 file can be skipped. -/
def FrontSized : TzFile → Prop
  | v1 _ => True
  | v2 front _ _ => front.Sized

/-- What follows the block that is read. -/
def tzstring : TzFile → List UInt8
  | v1 _ => []
  | v2 _ _ footer => [0x0a] ++ (footer ++ [0x0a])

theorem ends_readZone_v1 {block : TzBlock} (h : block.Readable true) :
    Ends (readZone .little {}) (v1 block).encode [] ((block.outcome []).map some) := by
  have hblock := h.ends_readDataBlock [] fun _ => rfl
  rw [List.append_nil] at hblock
  simp only [encode, TzBlock.header, List.append_assoc]
  refine (reads_readHead _).bind ((reads_readBytes _ rfl).bind ((reads_readBytes _ rfl).bind ?_))
  refine (block.reads_readCounts .little _).bind_back ?_ (if_neg (by decide)) hblock
  rw [length_counts]
  rfl

theorem ends_readZone_v2 {front block : TzBlock} {footer : List UInt8} (hfront : front.Sized)
    (h : block.Readable false) :
    Ends (readZone .little {}) (v2 front block footer).encode []
      ((block.outcome ([0x0a] ++ (footer ++ [0x0a]))).map some) := by
  have hblock := h.ends_readDataBlock ([0x0a] ++ (footer ++ [0x0a])) nofun
  have hskip := hfront.skipOf_eq
  simp only [encode, TzBlock.header, List.append_assoc]
  refine (reads_readHead _).bind ((reads_readBytes _ rfl).bind ((reads_readBytes _ rfl).bind ?_))
  refine (front.reads_readCounts .little _).bind ?_
  rw [if_pos rfl, hskip]
  refine (reads_lift _ _).bind_nil ?_
  refine (reads_fseek _ rfl).bind ((reads_readHead _).bind ?_)
  rw [← List.append_assoc [0x32]]
  exact (reads_fseek _ rfl).bind hblock

theorem WellFormed.readable (h : z.WellFormed) : z.block.Readable z.isV1 where
  nonempty := h.nonempty
  types := h.types
  type lt hlt := (h.type lt hlt).1
  transitions := h.transitions
  time t ht := by
    cases z with
    | v1 block => exact (h.transition t ht).1
    | v2 front block footer => exact (h.transition t ht).1
  abbreviation := h.abbreviation
  leaps := h.leaps
  isstd := h.isstd
  isut := h.isut

theorem WellFormed.ends_readZone (h : z.WellFormed) (hfront : z.FrontSized) :
    Ends (readZone .little {}) z.encode [] ((z.block.outcome z.tzstring).map some) := by
  cases z with
  | v1 block => exact ends_readZone_v1 h.readable
  | v2 front block footer => exact ends_readZone_v2 hfront h.readable

theorem WellFormed.readTimeZoneFile_eq_some (h : z.WellFormed) (hfront : z.FrontSized)
    {data : ZoneData} : readTimeZoneFile .little (some z.encode) {} = .ok (some data) ↔
      z.block.outcome z.tzstring = .ok data := by
  have hread := h.ends_readZone hfront { content := z.encode } (List.append_nil _).symm
  rw [readTimeZoneFile, hread]
  cases z.block.outcome z.tzstring with
  | ok out => simp [Except.map]
  | error stop => cases stop <;> simp [Except.map]

end TzFile

namespace TzBlock

/-- A block the code does no harm to. -/
structure Plain (b : TzBlock) : Prop where
  transitions : b.transitions.length ≤ 2147483647
  transition : ∀ t ∈ b.transitions, t.2 = 0 ∧ Fits 64 (t.1 + b.offset t.2)
  type : ∀ lt ∈ b.types, lt.isDst = false ∧ lt.desigIdx = 0
  abbreviation : b.abbreviation.length ≤ 2147483647

/-- The zone of a block. -/
structure Holds (b : TzBlock) (data : ZoneData) : Prop where
  transitions : data.transitions =
    b.transitions.map fun t => ⟨t.1, t.1 + b.offset t.2, t.2⟩
  localtimes : data.localtimes = b.types
  abbreviation : data.abbreviation = b.abbreviation

variable {b : TzBlock}

theorem holds_zeroed (tz : List UInt8) : b.Holds (b.zeroed tz) ↔
    (∀ t ∈ b.transitions, t.2 = 0) ∧ ∀ lt ∈ b.types, lt.isDst = false ∧ lt.desigIdx = 0 := by
  constructor
  · intro h
    constructor
    · intro t ht
      have heq := List.map_inj_left.mp h.transitions t ht
      exact ((Transition.mk.injEq ..).mp heq).2.2.symm
    · intro lt hlt
      have heq : (⟨lt.utcOffset, false, 0⟩ : LocalTime) = lt :=
        List.map_inj_left.mp (h.localtimes.trans (List.map_id _).symm) lt hlt
      rw [← heq]
      exact ⟨rfl, rfl⟩
  · intro ⟨hindex, htype⟩
    refine ⟨List.map_inj_left.mpr fun t ht => ?_, ?_, rfl⟩
    · rw [hindex t ht]
    · refine (List.map_inj_left.mpr fun lt hlt => ?_).trans (List.map_id _)
      obtain ⟨hdst, hidx⟩ := htype lt hlt
      show (⟨lt.utcOffset, false, 0⟩ : LocalTime) = lt
      rw [← hdst, ← hidx]

theorem outcome_eq_ok {tz : List UInt8} {data : ZoneData} : b.outcome tz = .ok data ↔
    b.transitions.length ≤ 2147483647 ∧ (∀ t ∈ b.transitions, Fits 64 (t.1 + b.offset 0)) ∧
      b.abbreviation.length ≤ 2147483647 ∧ b.zeroed tz = data := by
  by_cases htimes : 2147483647 < b.transitions.length
  · rw [outcome, if_pos htimes]
    exact ⟨nofun, fun h => by omega⟩
  rw [outcome, if_neg htimes]
  by_cases hfits : ∀ t ∈ b.transitions, Fits 64 (t.1 + b.offset 0)
  · rw [if_pos hfits]
    by_cases hchars : 2147483647 < b.abbreviation.length
    · rw [if_pos hchars]
      exact ⟨nofun, fun h => by omega⟩
    · rw [if_neg hchars, Except.ok.injEq]
      exact ⟨fun h => ⟨by omega, hfits, by omega, h⟩, fun h => h.2.2.2⟩
  · rw [if_neg hfits]
    exact ⟨nofun, fun h => absurd h.2.1 hfits⟩

end TzBlock

namespace TzFile

variable {z : TzFile}

/-- The zone comes out as it went in. -/
def Decodes (z : TzFile) : Prop :=
  ∃ data, readTimeZoneFile .little (some z.encode) {} = .ok (some data) ∧ z.block.Holds data

theorem WellFormed.plain_of_decodes (h : z.WellFormed) (hfront : z.FrontSized)
    (hz : z.Decodes) : z.block.Plain := by
  obtain ⟨data, hread, hholds⟩ := hz
  rw [h.readTimeZoneFile_eq_some hfront, TzBlock.outcome_eq_ok] at hread
  obtain ⟨htimes, hfits, hchars, rfl⟩ := hread
  obtain ⟨hindex, htype⟩ := (TzBlock.holds_zeroed _).mp hholds
  refine ⟨htimes, fun t ht => ⟨hindex t ht, ?_⟩, htype, hchars⟩
  rw [hindex t ht]
  exact hfits t ht

theorem WellFormed.decodes_of_plain (h : z.WellFormed) (hfront : z.FrontSized)
    (hplain : z.block.Plain) : z.Decodes := by
  obtain ⟨htimes, htransition, htype, hchars⟩ := hplain
  have hindex : ∀ t ∈ z.block.transitions, t.2 = 0 := fun t ht => (htransition t ht).1
  have hfits : ∀ t ∈ z.block.transitions, Fits 64 (t.1 + z.block.offset 0) := by
    intro t ht
    rw [← hindex t ht]
    exact (htransition t ht).2
  refine ⟨z.block.zeroed z.tzstring, ?_, (TzBlock.holds_zeroed _).mpr ⟨hindex, htype⟩⟩
  rw [h.readTimeZoneFile_eq_some hfront, TzBlock.outcome_eq_ok]
  exact ⟨htimes, hfits, hchars, rfl⟩

/-- A zone survives exactly if all its bytes are zero: it has one kind of
local time. -/
theorem decodes_iff (h : z.WellFormed) (hfront : z.FrontSized) :
    z.Decodes ↔ z.block.Plain :=
  ⟨h.plain_of_decodes hfront, h.decodes_of_plain hfront⟩

end TzFile

/-- Singapore since 1982, in front of it a block with a leap second. -/
def singapore : TzFile :=
  .v2
    { transitions := [], types := [⟨0, false, 0⟩], abbreviation := [0]
      leaps := [(78796800, 1)] }
    { transitions := [(378664200, 0)], types := [⟨28800, false, 0⟩]
      abbreviation := [0x2b, 0x30, 0x38, 0] }
    [0x3c, 0x2b, 0x30, 0x38, 0x3e, 0x2d, 0x38]

theorem singapore_wellFormed : singapore.WellFormed where
  nonempty := nofun
  types := by decide
  type := by decide
  transitions := by decide
  transition := by decide
  abbreviation := by decide
  leaps := rfl
  isstd := .inl rfl
  isut := .inl rfl

theorem singapore_frontSized : singapore.FrontSized := by
  constructor <;> decide

theorem singapore_plain : singapore.block.Plain := by
  constructor <;> decide

theorem decodes_iff_singapore : singapore.WellFormed ∧ singapore.FrontSized ∧
    singapore.Decodes :=
  ⟨singapore_wellFormed, singapore_frontSized,
    (TzFile.decodes_iff singapore_wellFormed singapore_frontSized).mpr singapore_plain⟩

/-- Central European time, with one change to summer time. -/
def summer : TzFile :=
  .v1 { transitions := [(1711846800, 1)], types := [⟨3600, false, 0⟩, ⟨7200, true, 4⟩]
        abbreviation := [0x43, 0x45, 0x54, 0, 0x43, 0x45, 0x53, 0x54, 0] }

theorem summer_wellFormed : summer.WellFormed where
  nonempty := nofun
  types := by decide
  type := by decide
  transitions := by decide
  transition := by decide
  abbreviation := by decide
  leaps := rfl
  isstd := .inl rfl
  isut := .inl rfl

/-- What is left of it. -/
def summerRead : ZoneData where
  transitions := [⟨1711846800, 1711850400, 0⟩]
  localtimes := [⟨3600, false, 0⟩, ⟨7200, false, 0⟩]
  abbreviation := [0x43, 0x45, 0x54, 0, 0x43, 0x45, 0x53, 0x54, 0]

theorem summer_lost : summer.WellFormed ∧
    readTimeZoneFile .little (some summer.encode) {} = .ok (some summerRead) ∧
    ¬ summer.Decodes := by
  have hread : readTimeZoneFile .little (some summer.encode) {} = .ok (some summerRead) := by
    decide +kernel
  refine ⟨summer_wellFormed, hread, ?_⟩
  intro ⟨data, hdata, hholds⟩
  cases hread.symm.trans hdata
  exact absurd hholds.localtimes (by decide)

end Libanet
