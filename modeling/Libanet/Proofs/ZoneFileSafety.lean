import Libanet.Proofs.LocalTime
import Libanet.Proofs.ZoneFile

/-!
# Zone files of any content

Nothing is known of a file here but its bytes. Every reader of the code takes
a fixed number of them, or as many as a count says that has been read before,
and stops with something that is caught where there are fewer. So what becomes
of a file is a chain of conditions on its bytes, one reader after the other,
and along the chain are some that nothing in the code looks at. A product of
two counts, or a time on the clock of its type, may be too large for its type.
The number of abbreviation bytes may be negative, and `readBytes` is called
with it. And there may be no types at all: then the code answers with a zone
that has no local time, and the first lookup takes the front of an empty
vector.

All other nonsense does end in a caught error: a negative number of times or
types in `reserve`, an index without a type in `at`, and whatever is missing in
the reader that misses it. `HostileBlock` is what is left, and `zoneBlock` says
which block it is that counts.
-/

namespace Libanet

open Net (ByteOrder)
open ByteReader (fread fseek readToEnd many)

/-! ## Numbers -/

/-- The signed number of `w` bits in these bytes. -/
def intBE (w : Nat) (bytes : List UInt8) : Int := (BitVec.ofNat w (valueBE bytes)).toInt

/-- What `readUint8` makes of a byte. -/
def uint8 (host : ByteOrder) (byte : List UInt8) : Nat :=
  match host with
  | .little => 0
  | .big => valueBE byte

/-- A fault: a `readBytes` of a negative length, or an overflow. -/
def Uncaught (stop : ReadStop) : Prop := ∃ f, stop = .fault f

abbrev Caught (stop : ReadStop) : Prop := ¬Uncaught stop

theorem caught_logic_error (what : String) : Caught (.logic_error what) := by
  simp [Caught, Uncaught]

theorem caught_length_error : Caught .length_error := by simp [Caught, Uncaught]

theorem caught_out_of_range : Caught .out_of_range := by simp [Caught, Uncaught]

theorem takes_readExactly (n : Nat) (what : String) :
    Takes Caught (readExactly n what) n id := by
  constructor
  · intro f hf
    have hlen : (f.rest.take n).length = n := List.length_take_of_le hf
    rw [readExactly, bind_apply (fread_of_le hf), if_neg (not_not.mpr hlen)]
    rfl
  · intro f hf
    have hlen : (f.rest.take n).length ≠ n := by
      rw [List.length_take]
      omega
    have hfread : (fread n : FileReader _) f =
      .ok (f.rest.take n, f.advance (f.rest.take n).length) := rfl
    refine ⟨_, caught_logic_error what, ?_⟩
    rw [readExactly, bind_apply hfread, if_pos hlen]
    rfl

theorem takes_readBytes {n : Int} (h : 0 ≤ n) : Takes Caught (readBytes n) n.toNat id := by
  rw [readBytes, if_neg (Int.not_lt.mpr h)]
  exact takes_readExactly _ _

theorem takes_readInt32 (host : ByteOrder) : Takes Caught (readInt32 host) 4 (intBE 32) := by
  refine ((takes_readExactly 4 "bad int32_t data").bind_pure
    fun x => (host.betoh (host.object 32 x)).toInt).congr rfl fun bytes hlen => ?_
  exact congrArg BitVec.toInt (host.betoh_object (by decide) hlen)

theorem takes_readInt64 (host : ByteOrder) : Takes Caught (readInt64 host) 8 (intBE 64) := by
  refine ((takes_readExactly 8 "bad int64_t data").bind_pure
    fun x => (host.betoh (host.object 64 x)).toInt).congr rfl fun bytes hlen => ?_
  exact congrArg BitVec.toInt (host.betoh_object (by decide) hlen)

theorem takes_readUint8 (host : ByteOrder) : Takes Caught (readUint8 host) 1 (uint8 host) := by
  refine ((takes_readExactly 1 "bad uint8_t data").bind_pure
    fun x => ((host.betoh ((host.object 8 x).setWidth 64)).setWidth 8).toNat).congr rfl
    fun bytes hlen => ?_
  cases host with
  | little => exact betoh_byte _
  | big =>
      have hlt := valueBE_lt bytes
      rw [hlen] at hlt
      show (((BitVec.ofNat 8 (valueBE bytes)).setWidth 64).setWidth 8).toNat = valueBE bytes
      simp only [BitVec.toNat_setWidth, BitVec.toNat_ofNat]
      omega

/-! ## The data block -/

/-- The counts at the end of a header. -/
def countsIn (bytes : List UInt8) : TzCounts where
  isutccnt := intBE 32 (bytes.take 4)
  isstdcnt := intBE 32 ((bytes.drop 4).take 4)
  leapcnt := intBE 32 ((bytes.drop 8).take 4)
  timecnt := intBE 32 ((bytes.drop 12).take 4)
  typecnt := intBE 32 ((bytes.drop 16).take 4)
  charcnt := intBE 32 ((bytes.drop 20).take 4)

theorem takes_readCounts (host : ByteOrder) : Takes Caught (readCounts host) 24 countsIn := by
  have hint := takes_readInt32 host
  refine (hint.bind fun _ => hint.bind fun _ => hint.bind fun _ => hint.bind fun _ =>
    hint.bind fun _ => hint.bind_pure _).congr rfl fun bytes hlen => ?_
  have hlast : ((bytes.drop 20).take 4) = bytes.drop 20 :=
    List.take_of_length_le (by rw [List.length_drop]; omega)
  simp only [countsIn, List.drop_drop, hlast]

/-- A type, in its six bytes. -/
def typeIn (host : ByteOrder) (bytes : List UInt8) : LocalTime where
  utcOffset := intBE 32 (bytes.take 4)
  isDst := uint8 host ((bytes.drop 4).take 1) ≠ 0
  desigIdx := uint8 host ((bytes.drop 5).take 1)

theorem typeIn_take (host : ByteOrder) (bytes : List UInt8) :
    typeIn host (bytes.take 6) = typeIn host bytes := by
  simp [typeIn, List.drop_take, List.take_take]

theorem takes_readLocalTimes (host : ByteOrder) (n : Nat) (data : ZoneData) :
    Takes Caught (readLocalTimes host n data) (6 * n) fun bytes =>
      { data with localtimes := data.localtimes ++ (chunks 6 n bytes).map (typeIn host) } := by
  induction n generalizing data with
  | zero =>
      refine (Takes.pure data).congr rfl fun bytes _ => ?_
      rw [chunks, List.map_nil, List.append_nil]
  | succ n ih =>
      have hbyte := takes_readUint8 host
      refine ((takes_readInt32 host).bind fun _ => hbyte.bind fun _ => hbyte.bind fun _ =>
        ih _).congr ?_ fun bytes _ => ?_
      · rw [Nat.mul_succ]
        omega
      · simp only [ZoneData.addLocalTime, chunks, List.map_cons, typeIn_take, List.append_assoc,
          List.singleton_append, List.drop_drop]
        rfl

/-! ## Transitions -/

/-- The time of a transition to a type there is does not fit on the type's clock. -/
def Overflows (types : List LocalTime) (t : Int × Nat) : Prop :=
  ∃ lt, types[t.2]? = some lt ∧ ¬Fits 64 (t.1 + lt.utcOffset)

/-- One of the transitions does that, and those before it are accepted. -/
def OverflowReached (types : List LocalTime) : List (Int × Nat) → Prop
  | [] => False
  | t :: ts => Overflows types t ∨ Accepted types t ∧ OverflowReached types ts

theorem Accepted.not_overflows {types : List LocalTime} {t : Int × Nat} (h : Accepted types t) :
    ¬Overflows types t := by
  rintro ⟨lt, hlt, hnot⟩
  obtain ⟨lt', hlt', hfits⟩ := h
  cases hlt.symm.trans hlt'
  exact hnot hfits

theorem not_overflowReached {types : List LocalTime} {ts : List (Int × Nat)}
    (h : ∀ t ∈ ts, Accepted types t) : ¬OverflowReached types ts := by
  induction ts with
  | nil => exact id
  | cons t ts ih =>
      rw [List.forall_mem_cons] at h
      exact not_or.mpr ⟨h.1.not_overflows, fun hrest => ih h.2 hrest.2⟩

/-- A transition that is not accepted is rejected, unless it overflows. -/
theorem addTransition_not {data : ZoneData} {t : Int × Nat} (h : ¬Accepted data.localtimes t) :
    ∃ e, (Uncaught e ↔ Overflows data.localtimes t) ∧
      data.addTransition t.1 t.2 = .error e := by
  unfold ZoneData.addTransition
  cases hlt : data.localtimes[t.2]? with
  | none =>
      refine ⟨.out_of_range, iff_of_false caught_out_of_range ?_, rfl⟩
      rintro ⟨lt, hlt', -⟩
      cases hlt.symm.trans hlt'
  | some lt =>
      have hfits : ¬Fits 64 (t.1 + lt.utcOffset) := fun hfits => h ⟨lt, hlt, hfits⟩
      refine ⟨.fault .signedOverflow, iff_of_true ⟨_, rfl⟩ ⟨lt, hlt, hfits⟩, ?_⟩
      simp only [signed, if_neg hfits]

theorem addTransitions_not {ts : List (Int × Nat)} (data : ZoneData)
    (h : ¬∀ t ∈ ts, Accepted data.localtimes t) :
    ∃ e, (Uncaught e ↔ OverflowReached data.localtimes ts) ∧
      addTransitions ts data = .error e := by
  induction ts generalizing data with
  | nil => exact absurd (List.forall_mem_nil _) h
  | cons t ts ih =>
      rw [List.forall_mem_cons, not_and] at h
      rw [addTransitions, OverflowReached]
      by_cases ht : Accepted data.localtimes t
      · rw [addTransition_of data ht, or_iff_right ht.not_overflows, and_iff_right ht]
        exact ih { data with
          transitions := data.transitions ++ [transitionTo data.localtimes t] } (h ht)
      · obtain ⟨e, he, hstep⟩ := addTransition_not ht
        rw [or_iff_left fun hrest => ht hrest.1]
        exact ⟨e, he, by rw [hstep]; rfl⟩

/-- All transitions go to types there are. -/
def IndicesOk (data : ZoneData) : Prop :=
  ∀ trans ∈ data.transitions, trans.localtimeIdx < data.localtimes.length

/-- Transitions that are accepted do. -/
theorem indicesOk_of {ts : List (Int × Nat)} {types : List LocalTime}
    (h : ∀ t ∈ ts, Accepted types t) :
    IndicesOk { transitions := ts.map (transitionTo types), localtimes := types } := by
  intro trans hmem
  obtain ⟨t, ht, rfl⟩ := List.mem_map.mp hmem
  obtain ⟨lt, hlt, -⟩ := h t ht
  exact (List.getElem?_eq_some_iff.mp hlt).1

/-! ## What is in a block -/

def timeSize (v1 : Bool) : Nat := if v1 then 4 else 8

namespace TzCounts

/-- The transitions in the bytes behind the counts: times, and then indices. -/
def transitionsIn (c : TzCounts) (host : ByteOrder) (v1 : Bool) (bytes : List UInt8) :
    List (Int × Nat) :=
  let n := c.timecnt.toNat
  ((chunks (timeSize v1) n bytes).map (intBE (8 * timeSize v1))).zip
    ((chunks 1 n (bytes.drop (timeSize v1 * n))).map (uint8 host))

/-- And the types, behind them. -/
def typesIn (c : TzCounts) (host : ByteOrder) (v1 : Bool) (bytes : List UInt8) :
    List LocalTime :=
  let n := c.timecnt.toNat
  (chunks 6 c.typecnt.toNat ((bytes.drop (timeSize v1 * n)).drop n)).map (typeIn host)

/-- How many bytes these take. -/
def arraysLength (c : TzCounts) (v1 : Bool) : Nat :=
  timeSize v1 * c.timecnt.toNat + c.timecnt.toNat + 6 * c.typecnt.toNat

end TzCounts

/-- The abbreviations have a negative length; or they are there, but not a single
type is. -/
def HostileChars (v1 : Bool) (c : TzCounts) (bytes : List UInt8) : Prop :=
  c.charcnt < 0 ∨ c.typecnt = 0 ∧ c.charcnt ≤ bytes.length - c.arraysLength v1

/-- The arrays are there. The time of a transition overflows, before any is
rejected; or all are accepted, and the abbreviations are hostile. -/
structure Hostile (host : ByteOrder) (v1 : Bool) (c : TzCounts) (bytes : List UInt8) : Prop where
  timecnt : 0 ≤ c.timecnt
  typecnt : 0 ≤ c.typecnt
  present : c.arraysLength v1 ≤ bytes.length
  harm : OverflowReached (c.typesIn host v1 bytes) (c.transitionsIn host v1 bytes) ∨
    (∀ t ∈ c.transitionsIn host v1 bytes, Accepted (c.typesIn host v1 bytes) t) ∧
      HostileChars v1 c bytes

namespace ZoneData

/-- There is something for `front`, and whatever a transition asks for. -/
structure Usable (d : ZoneData) : Prop where
  nonempty : d.localtimes ≠ []
  indices : IndicesOk d

end ZoneData

/-- How a reader of zones should end. -/
abbrev ReadsUsable : Except ReadStop (ZoneData × ByteFile) → Prop :=
  EndsIn Uncaught fun p => p.1.Usable

theorem endsIn_reserve {n : Int} {β : Type} {k : Unit → FileReader β} {f : ByteFile}
    {Q : β × ByteFile → Prop} :
    EndsIn Uncaught Q ((reserve n >>= k) f) ↔
      (0 ≤ n → EndsIn Uncaught Q (k () f)) := by
  unfold reserve
  split
  · next hneg =>
      exact iff_of_true caught_length_error fun hn => absurd hneg (Int.not_lt.mpr hn)
  · next hpos => exact ⟨fun h _ => h, fun h => h (Int.not_lt.mp hpos)⟩

theorem endsIn_readBytes {n : Int} {β : Type} {k : List UInt8 → FileReader β} {f : ByteFile}
    {Q : β × ByteFile → Prop} :
    EndsIn Uncaught Q ((readBytes n >>= k) f) ↔
      0 ≤ n ∧ (n.toNat ≤ f.rest.length →
        EndsIn Uncaught Q (k (f.rest.take n.toNat) (f.advance n.toNat))) := by
  by_cases hn : 0 ≤ n
  · rw [(takes_readBytes hn).endsIn_bind, and_iff_right hn, id]
  · rw [readBytes, if_pos (Int.not_le.mp hn)]
    exact iff_of_false (fun h => h ⟨_, rfl⟩) fun h => hn h.1

/-- The rest of the block, behind the transitions. -/
def readTail (data : ZoneData) (v1 : Bool) (c : TzCounts) : FileReader ZoneData := do
  let time_size : Int := if v1 then 4 else 8
  let abbreviation ← readBytes c.charcnt
  fseek (c.leapcnt * (time_size + 4))
  fseek c.isstdcnt
  fseek c.isutccnt
  let tzstring ← if v1 then pure data.tzstring else readToEnd
  return { data with abbreviation := abbreviation, tzstring := tzstring }

theorem readsUsable_tail {data : ZoneData} {v1 : Bool} {c : TzCounts} {f : ByteFile} :
    ReadsUsable (readTail data v1 c f) ↔
      0 ≤ c.charcnt ∧ (c.charcnt.toNat ≤ f.rest.length → data.Usable) := by
  have hseek : ∀ (n : Int) (f : ByteFile), ∃ f', (fseek n : FileReader _) f = .ok ((), f') :=
    fun n f => ⟨_, rfl⟩
  have hdone : ∀ (abbreviation tzstring : List UInt8), ZoneData.Usable
      { data with abbreviation := abbreviation, tzstring := tzstring } ↔ data.Usable :=
    fun _ _ => ⟨fun h => ⟨h.nonempty, h.indices⟩, fun h => ⟨h.nonempty, h.indices⟩⟩
  unfold readTail
  rw [ReadsUsable, endsIn_readBytes]
  refine and_congr_right fun _ => imp_congr_right fun _ => ?_
  obtain ⟨f₁, h₁⟩ := hseek (c.leapcnt * ((if v1 then 4 else 8) + 4)) (f.advance c.charcnt.toNat)
  obtain ⟨f₂, h₂⟩ := hseek c.isstdcnt f₁
  obtain ⟨f₃, h₃⟩ := hseek c.isutccnt f₂
  rw [bind_apply h₁, bind_apply h₂, bind_apply h₃]
  cases v1 with
  | true => exact hdone _ _
  | false => exact hdone _ _

theorem takes_time (host : ByteOrder) (v1 : Bool) :
    Takes Caught (if v1 then readInt32 host else readInt64 host) (timeSize v1)
      (intBE (8 * timeSize v1)) := by
  cases v1 with
  | true => exact takes_readInt32 host
  | false => exact takes_readInt64 host

/-- The transitions are added to the types that have been read. -/
theorem readsUsable_addTransitions (ts : List (Int × Nat)) (types : List LocalTime) (v1 : Bool)
    (c : TzCounts) (f : ByteFile) :
    ReadsUsable ((do
        let data ← addTransitions ts { localtimes := types }
        readTail data v1 c : FileReader ZoneData) f) ↔
      ¬OverflowReached types ts ∧ ((∀ t ∈ ts, Accepted types t) →
        0 ≤ c.charcnt ∧ (c.charcnt.toNat ≤ f.rest.length → types ≠ [])) := by
  by_cases h : ∀ t ∈ ts, Accepted types t
  · have hadded := addTransitions_of { localtimes := types } h
    have husable : ZoneData.Usable
        { transitions := ts.map (transitionTo types), localtimes := types } ↔ types ≠ [] :=
      ⟨fun hu => hu.nonempty, fun hne => ⟨hne, indicesOk_of h⟩⟩
    rw [hadded, forall_prop_of_true h, and_iff_right (not_overflowReached h), ← husable]
    exact readsUsable_tail
  · obtain ⟨e, he, hstop⟩ := addTransitions_not { localtimes := types } h
    rw [hstop, and_iff_left fun hall => absurd hall h]
    exact not_congr he

/-- The arrays of a block come out usable unless it is hostile. -/
theorem readsUsable_readDataArrays {host : ByteOrder} {v1 : Bool} {c : TzCounts}
    {f : ByteFile} :
    ReadsUsable (readDataArrays host {} v1 c f) ↔ ¬Hostile host v1 c f.rest := by
  have htypes : c.typesIn host v1 f.rest = [] ↔ c.typecnt.toNat = 0 := by
    rw [TzCounts.typesIn, List.map_eq_nil_iff, ← List.length_eq_zero_iff, length_chunks]
  unfold readDataArrays
  rw [ReadsUsable, endsIn_reserve, ((takes_time host v1).many _).endsIn_bind, endsIn_reserve,
    ((takes_readUint8 host).many _).endsIn_bind, endsIn_reserve,
    (takes_readLocalTimes host _ _).endsIn_bind]
  simp only [chunks_take, ByteFile.rest_advance_eq, List.length_drop]
  simp only [Nat.one_mul, List.nil_append]
  have htransitions := readsUsable_addTransitions (c.transitionsIn host v1 f.rest)
    (c.typesIn host v1 f.rest) v1 c
    (((f.advance (timeSize v1 * c.timecnt.toNat)).advance c.timecnt.toNat).advance
      (6 * c.typecnt.toNat))
  simp only [ByteFile.rest_advance_eq, List.length_drop] at htransitions
  constructor
  · rintro h ⟨htimecnt, htypecnt, hpresent, hharm⟩
    unfold TzCounts.arraysLength at hpresent
    obtain ⟨hfit, hchars⟩ := htransitions.mp (h htimecnt (by omega) htimecnt (by omega) htypecnt
      (by omega))
    rcases hharm with hover | ⟨haccepted, hhostile⟩
    · exact hfit hover
    · unfold HostileChars TzCounts.arraysLength at hhostile
      obtain ⟨hpos, hne⟩ := hchars haccepted
      rcases hhostile with hneg | ⟨hnone, hle⟩
      · omega
      · exact hne (by omega) (htypes.mpr (by omega))
  · intro h htimecnt htimes _ hindices htypecnt htypesize
    have hpresent : c.arraysLength v1 ≤ f.rest.length := by
      unfold TzCounts.arraysLength
      omega
    refine htransitions.mpr ⟨fun hover => h ⟨htimecnt, htypecnt, hpresent, .inl hover⟩,
      fun haccepted => ?_⟩
    obtain ⟨hpos, hnone⟩ := not_or.mp fun hchars =>
      h ⟨htimecnt, htypecnt, hpresent, .inr ⟨haccepted, hchars⟩⟩
    rw [not_and] at hnone
    unfold TzCounts.arraysLength at hpresent hnone
    refine ⟨by omega, fun hle hnil => ?_⟩
    have hzero := htypes.mp hnil
    exact hnone (by omega) (by omega)

/-- What a block is if it is hostile: counts that are accepted, and arrays. -/
structure HostileBlock (host : ByteOrder) (v1 : Bool) (bytes : List UInt8) : Prop where
  length : 24 ≤ bytes.length
  leapcnt : (countsIn bytes).leapcnt = 0
  isutccnt : (countsIn bytes).isutccnt = 0 ∨ (countsIn bytes).isutccnt = (countsIn bytes).typecnt
  isstdcnt : (countsIn bytes).isstdcnt = 0 ∨ (countsIn bytes).isstdcnt = (countsIn bytes).typecnt
  arrays : Hostile host v1 (countsIn bytes) (bytes.drop 24)

theorem countsIn_take (bytes : List UInt8) : countsIn (bytes.take 24) = countsIn bytes := by
  simp [countsIn, List.drop_take, List.take_take]

/-- How a reader should end that may answer false. -/
abbrev YieldsUsable : Except ReadStop (Option ZoneData × ByteFile) → Prop :=
  EndsIn Uncaught fun p => ∀ d, p.1 = some d → d.Usable

theorem yieldsUsable_some {r : FileReader ZoneData} {f : ByteFile} :
    YieldsUsable ((do return some (← r) : FileReader (Option ZoneData)) f) ↔
      ReadsUsable (r f) := by
  cases h : r f with
  | ok p =>
      rw [bind_apply h]
      exact ⟨fun hd => hd p.1 rfl, fun hd _ heq => by cases heq; exact hd⟩
  | error e =>
      rw [bind_apply_error h]
      exact Iff.rfl

theorem yieldsUsable_readDataBlock {host : ByteOrder} {v1 : Bool} {f : ByteFile} :
    YieldsUsable (readDataBlock host {} v1 f) ↔ ¬HostileBlock host v1 f.rest := by
  unfold readDataBlock
  rw [YieldsUsable, (takes_readCounts host).endsIn_bind, countsIn_take]
  have hnone : YieldsUsable (.ok (none, f.advance 24)) := nofun
  have harrays : YieldsUsable ((do return some (← readDataArrays host {} v1 (countsIn f.rest)) :
      FileReader (Option ZoneData)) (f.advance 24)) ↔
        ¬Hostile host v1 (countsIn f.rest) (f.rest.drop 24) := by
    rw [yieldsUsable_some, readsUsable_readDataArrays, ByteFile.rest_advance_eq]
  by_cases hlength : 24 ≤ f.rest.length
  · rw [forall_prop_of_true hlength]
    split
    · next hleap => exact iff_of_true hnone fun h => hleap h.leapcnt
    · split
      · next hisut =>
          exact iff_of_true hnone fun h => h.isutccnt.elim hisut.1 hisut.2
      · split
        · next hisstd =>
            exact iff_of_true hnone fun h => h.isstdcnt.elim hisstd.1 hisstd.2
        · next hleap hisut hisstd =>
            refine harrays.trans (not_congr ?_)
            rw [not_and_or, not_not, not_not] at hisut hisstd
            exact ⟨fun h => ⟨hlength, not_not.mp hleap, hisut, hisstd, h⟩, fun h => h.arrays⟩
  · exact iff_of_true (fun h => absurd h hlength) fun h => hlength h.length

/-! ## The file -/

theorem endsIn_readHead {β : Type} {k : Unit → FileReader β} {f : ByteFile}
    {Q : β × ByteFile → Prop} :
    EndsIn Uncaught Q ((readHead >>= k) f) ↔
      (f.rest.take 4 = TZif → EndsIn Uncaught Q (k () (f.advance 4))) := by
  have hbytes : Takes Caught (readBytes 4) 4 id := takes_readBytes (by decide)
  by_cases hhead : f.rest.take 4 = TZif
  · have hlen : 4 ≤ f.rest.length := by
      have := congrArg List.length hhead
      rw [List.length_take, show TZif.length = 4 from rfl] at this
      omega
    have hread : readHead f = .ok ((), f.advance 4) := by
      rw [readHead, bind_apply (hbytes.enough f hlen), id, if_neg (not_not.mpr hhead)]
      rfl
    rw [bind_apply hread, forall_prop_of_true hhead]
  · have hstop : ∃ e, Caught e ∧ readHead f = .error e := by
      by_cases hlen : 4 ≤ f.rest.length
      · refine ⟨_, caught_logic_error "bad head", ?_⟩
        rw [readHead, bind_apply (hbytes.enough f hlen), id, if_pos hhead]
        rfl
      · obtain ⟨e, he, hr⟩ := hbytes.short f (Nat.not_le.mp hlen)
        exact ⟨e, he, bind_apply_error hr⟩
    obtain ⟨e, he, hr⟩ := hstop
    rw [bind_apply_error hr]
    exact iff_of_true he fun h => absurd h hhead

/-- Where the second header should be: as far behind the first as the counts
say, or right behind it if that is before the start of the file. -/
def secondHeader (content : List UInt8) (skip : Int) : List UInt8 :=
  content.drop (if 0 ≤ 44 + skip then (44 + skip).toNat else 44)

/-- The block that is read, and whether it is one of version 1. -/
def zoneBlock (content : List UInt8) : Option (Bool × List UInt8) :=
  if content.take 4 = TZif ∧ 44 ≤ content.length then
    if (content.drop 4).take 1 = [0x32] then
      match skipOf (countsIn (content.drop 20)) with
      | .error _ => none
      | .ok skip =>
          if (secondHeader content skip).take 4 = TZif then
            some (false, (secondHeader content skip).drop 20)
          else none
    else some (true, content.drop 20)
  else none

/-- What is done behind the first header. -/
theorem yieldsUsable_second {host : ByteOrder} {content : List UInt8} {skip : Int} :
    YieldsUsable ((do
        fseek skip
        readHead
        fseek 16
        readDataBlock host {} false : FileReader (Option ZoneData)) ⟨content, 44⟩) ↔
      ((secondHeader content skip).take 4 = TZif →
        ¬HostileBlock host false ((secondHeader content skip).drop 20)) := by
  have hseek : (fseek skip : FileReader _) ⟨content, 44⟩ =
      .ok ((), ⟨content, if 0 ≤ 44 + skip then (44 + skip).toNat else 44⟩) := by
    simp only [fseek, Nat.cast_ofNat]
    split <;> rfl
  have hover : ∀ f : ByteFile, (fseek 16 : FileReader _) f = .ok ((), f.advance 16) :=
    fseek_forwards 16
  rw [YieldsUsable, bind_apply hseek, endsIn_readHead]
  refine imp_congr_right fun _ => ?_
  rw [bind_apply (hover _)]
  refine yieldsUsable_readDataBlock.trans ?_
  rw [ByteFile.rest_advance_eq, ByteFile.rest_advance_eq, List.drop_drop]
  rfl

/-- The length of the first block of a version 2 file is not computed without
an overflow. -/
def SkipOverflows (content : List UInt8) : Prop :=
  (content.take 4 = TZif ∧ 44 ≤ content.length) ∧ (content.drop 4).take 1 = [0x32] ∧
    ¬(Fits 32 (6 * (countsIn (content.drop 20)).typecnt) ∧
      Fits 32 (8 * (countsIn (content.drop 20)).leapcnt))

/-- It is an overflow that `skipOf` stops with. -/
theorem skipOf_error {c : TzCounts} {e : ReadStop} (h : skipOf c = .error e) :
    Uncaught e ∧ ¬(Fits 32 (6 * c.typecnt) ∧ Fits 32 (8 * c.leapcnt)) := by
  unfold skipOf at h
  split at h
  · cases h
  · next hnot =>
      cases h
      refine ⟨⟨_, rfl⟩, fun hfits => ?_⟩
      exact hnot _ _ (signed_of hfits.1) (signed_of hfits.2)

theorem skipOf_ok {c : TzCounts} {skip : Int} (h : skipOf c = .ok skip) :
    Fits 32 (6 * c.typecnt) ∧ Fits 32 (8 * c.leapcnt) := by
  unfold skipOf at h
  split at h
  · next htypes hleaps => exact ⟨fits_of_signed htypes, fits_of_signed hleaps⟩
  · cases h

/-- A file yields no usable zone only by the first block's length, or by the block
that is read. -/
theorem yieldsUsable_readZone {host : ByteOrder} {content : List UInt8} :
    YieldsUsable (readZone host {} { content := content }) ↔ ¬SkipOverflows content ∧
      ∀ v1 block, zoneBlock content = some (v1, block) → ¬HostileBlock host v1 block := by
  have hrest : ({ content := content } : ByteFile).rest = content := rfl
  have hpos : (((({ content := content } : ByteFile).advance 4).advance 1).advance 15).advance
      24 = ⟨content, 44⟩ := rfl
  have hblock : ∀ v1 block, ¬HostileBlock host v1 block ↔ ∀ v1' block',
      some (v1, block) = some (v1', block') → ¬HostileBlock host v1' block' :=
    fun _ _ => ⟨fun h _ _ heq => by cases heq; exact h, fun h => h _ _ rfl⟩
  unfold readZone
  rw [YieldsUsable, endsIn_readHead, (takes_readBytes (by decide)).endsIn_bind,
    (takes_readBytes (by decide)).endsIn_bind, (takes_readCounts host).endsIn_bind]
  simp only [ByteFile.rest_advance_eq, countsIn_take, hrest, Int.toNat_one, Int.reduceToNat,
    List.drop_drop, List.length_drop, hpos, id]
  unfold zoneBlock
  by_cases hheader : content.take 4 = TZif ∧ 44 ≤ content.length
  · have hlength := hheader.2
    rw [forall_prop_of_true hheader.1, forall_prop_of_true (show 1 ≤ content.length - 4 by omega),
      forall_prop_of_true (show 15 ≤ content.length - (4 + 1) by omega),
      forall_prop_of_true (show 24 ≤ content.length - (4 + 1 + 15) by omega)]
    simp only [if_pos hheader]
    by_cases hversion : (content.drop 4).take 1 = [0x32]
    · simp only [if_pos hversion]
      cases hskip : skipOf (countsIn (content.drop 20)) with
      | error e =>
          obtain ⟨huncaught, hnot⟩ := skipOf_error hskip
          exact iff_of_false (fun h => h huncaught) fun h => h.1 ⟨hheader, hversion, hnot⟩
      | ok skip =>
          rw [and_iff_right fun hs : SkipOverflows content => hs.2.2 (skipOf_ok hskip)]
          refine yieldsUsable_second.trans ?_
          dsimp only
          by_cases hsecond : (secondHeader content skip).take 4 = TZif
          · rw [if_pos hsecond, forall_prop_of_true hsecond]
            exact hblock false _
          · rw [if_neg hsecond]
            exact iff_of_true (fun h => absurd h hsecond) nofun
    · simp only [if_neg hversion]
      rw [and_iff_right fun hs : SkipOverflows content => hversion hs.2.1]
      have hback : (fseek (-4 * 6) : FileReader _) ⟨content, 44⟩ = .ok ((), ⟨content, 20⟩) := rfl
      rw [bind_apply hback]
      exact yieldsUsable_readDataBlock.trans (hblock true _)
  · rw [if_neg hheader]
    refine iff_of_true (fun hhead _ _ hcounts => ?_) ⟨fun hs => hheader hs.1, nofun⟩
    exact absurd ⟨hhead, by omega⟩ hheader

/-! ## Looking up in what was read -/

/-- Nothing is read out of bounds. -/
abbrev InBounds {α : Type} : Except Fault α → Prop :=
  EndsIn (fun e => e = .outOfBounds) fun _ => True

theorem inBounds_signed (w : Nat) (x : Int) : InBounds (signed w x) := by
  unfold signed
  split
  · trivial
  · nofun

theorem endsIn_assertThat (p : Prop) [Decidable p] :
    EndsIn (fun e => e = Fault.outOfBounds) (fun _ => p) (assertThat p) := by
  unfold assertThat
  split
  · next hp => exact hp
  · nofun

theorem endsIn_index {α : Type} {v : List α} {i : Nat} (h : i < v.length) :
    EndsIn (fun e => e = Fault.outOfBounds) (· ∈ v) (index v i) := by
  rw [index, List.getElem?_eq_getElem h]
  exact List.getElem_mem h

theorem inBounds_index {α : Type} {v : List α} {i : Nat} (h : i < v.length) :
    InBounds (index v i) := (endsIn_index h).mono fun _ _ => trivial

theorem inBounds_getJulianDayNumber (year month day : Int) :
    InBounds (getJulianDayNumber year month day) := by
  unfold getJulianDayNumber
  repeat refine (inBounds_signed _ _).bind fun _ _ => ?_
  exact inBounds_signed _ _

theorem inBounds_fromUtcTime (dt : DateTime) : InBounds (fromUtcTime dt) := by
  unfold fromUtcTime
  have hdate : InBounds (Date.ofYearMonthDay dt.year dt.month dt.day) :=
    (inBounds_getJulianDayNumber _ _ _).bind fun _ _ => trivial
  refine hdate.bind fun _ _ => ?_
  repeat refine (inBounds_signed _ _).bind fun _ _ => ?_
  exact inBounds_signed _ _

namespace ZoneData

variable {d : ZoneData}

theorem Usable.front (h : d.Usable) : InBounds (front d.localtimes) :=
  inBounds_index (List.length_pos_iff.mpr h.nonempty)

/-- The transition at a position, and what its type is good for. -/
theorem Usable.transition (h : d.Usable) {i : Nat} (hi : i < d.transitions.length) {α : Type}
    {k : Transition → Except Fault α}
    (hk : ∀ trans, trans.localtimeIdx < d.localtimes.length → InBounds (k trans)) :
    InBounds (index d.transitions i >>= k) :=
  (endsIn_index hi).bind fun trans hmem => hk trans (h.indices trans hmem)

theorem Usable.last (h : d.Usable) (hne : d.transitions ≠ []) :
    InBounds (do
      let trans ← back d.transitions
      index d.localtimes trans.localtimeIdx) := by
  have hlast : d.transitions.length - 1 < d.transitions.length := by
    have := List.length_pos_iff.mpr hne
    omega
  rw [back_eq]
  exact h.transition hlast fun _ hidx => inBounds_index hidx

theorem Usable.findLocalTime (h : d.Usable) (t : Int) : InBounds (d.findLocalTime t) := by
  unfold ZoneData.findLocalTime
  split
  · exact h.front
  · next first rest hcons =>
      have hne : d.transitions ≠ [] := by simp [hcons]
      have hle := upperBound_le (compareUtcTime ⟨t, 0, 0⟩) d.transitions
      refine EndsIn.ite (fun _ => h.front) fun _ => ?_
      refine (endsIn_assertThat _).bind fun _ hpos => ?_
      refine EndsIn.ite (fun hend => ?_) fun _ => h.last hne
      exact h.transition (by omega) fun _ hidx => inBounds_index hidx

theorem inBounds_priorSecond (trans : Transition) {prior_trans : Transition}
    (hidx : prior_trans.localtimeIdx < d.localtimes.length) :
    InBounds (d.priorSecond trans prior_trans) := by
  refine (inBounds_index hidx).bind fun _ _ => ?_
  exact (inBounds_signed _ _).bind fun _ _ => inBounds_signed _ _

theorem Usable.findAround (h : d.Usable) {transI : Nat} (hlt : transI < d.transitions.length)
    (localtime : Int) (postTransition : Bool) :
    InBounds (d.findAround transI localtime postTransition) := by
  have hprior : transI - 1 < d.transitions.length := by omega
  have hbefore : transI - 1 - 1 < d.transitions.length := by omega
  unfold ZoneData.findAround
  refine h.transition hlt fun trans htrans => h.transition hprior fun prior_trans hidx => ?_
  refine (inBounds_priorSecond trans hidx).bind fun prior_second _ => ?_
  refine EndsIn.ite (fun _ => ?_) fun _ => ?_
  · exact EndsIn.ite (fun _ => inBounds_index htrans) fun _ => inBounds_index hidx
  · refine h.transition hprior fun trans' htrans' => ?_
    have hlast : ∀ (prior : Transition) (second : Int),
        prior.localtimeIdx < d.localtimes.length →
        InBounds (if localtime ≤ second then
          if postTransition then index d.localtimes trans'.localtimeIdx
          else index d.localtimes prior.localtimeIdx
        else index d.localtimes trans'.localtimeIdx) := by
      intro prior second hprior
      refine EndsIn.ite (fun _ => ?_) fun _ => inBounds_index htrans'
      exact EndsIn.ite (fun _ => inBounds_index htrans') fun _ => inBounds_index hprior
    refine EndsIn.ite (fun _ => ?_) fun _ => hlast _ _ hidx
    refine h.transition hbefore fun prior hprior => ?_
    exact (inBounds_priorSecond trans' hprior).bind fun second _ => hlast prior second hprior

/-- And by local time. -/
theorem Usable.findLocalTimeOf (h : d.Usable) (dt : DateTime) (postTransition : Bool) :
    InBounds (d.findLocalTimeOf dt postTransition) := by
  unfold ZoneData.findLocalTimeOf
  refine (inBounds_fromUtcTime dt).bind fun localtime _ => ?_
  split
  · exact h.front
  · next first rest hcons =>
      have hne : d.transitions ≠ [] := by simp [hcons]
      have hle := upperBound_le (compareUtcTime ⟨0, localtime, 0⟩) d.transitions
      refine EndsIn.ite (fun _ => h.front) fun _ => ?_
      refine (endsIn_assertThat _).bind fun _ _ => ?_
      refine EndsIn.ite (fun _ => h.last hne) fun hend => ?_
      exact h.findAround (by omega) localtime postTransition

end ZoneData

/-! ## The zone that comes out -/

/-- No `readBytes` of a negative length, and no overflow behind which there could
be one; and if a zone comes out, there is something for `front` in it and
whatever a transition asks for, and nothing is looked up out of bounds. -/
structure Harmless (out : Except Fault (Option ZoneData)) : Prop where
  read : ∀ f, out ≠ .error f
  usable : ∀ d, out = .ok (some d) → d.Usable
  findLocalTime : ∀ d, out = .ok (some d) → ∀ t, d.findLocalTime t ≠ .error .outOfBounds
  findLocalTimeOf : ∀ d, out = .ok (some d) →
    ∀ dt postTransition, d.findLocalTimeOf dt postTransition ≠ .error .outOfBounds

/-- The length of the first block overflows, or the block that is read is
hostile. -/
def HostileFile (host : ByteOrder) (content : List UInt8) : Prop :=
  SkipOverflows content ∨
    ∃ v1 block, zoneBlock content = some (v1, block) ∧ HostileBlock host v1 block

theorem harmless_of {out : Except Fault (Option ZoneData)} (hread : ∀ f, out ≠ .error f)
    (husable : ∀ d, out = .ok (some d) → d.Usable) : Harmless out where
  read := hread
  usable := husable
  findLocalTime d hd t := ((husable d hd).findLocalTime t).ne_error rfl
  findLocalTimeOf d hd dt postTransition :=
    ((husable d hd).findLocalTimeOf dt postTransition).ne_error rfl

theorem harmless_none : Harmless (.ok none) := harmless_of (by simp) (by simp)

theorem harmless_iff_yieldsUsable {host : ByteOrder} {content : List UInt8} :
    Harmless (readTimeZoneFile host (some content) {}) ↔
      YieldsUsable (readZone host {} { content := content }) := by
  simp only [readTimeZoneFile]
  cases readZone host {} { content := content } with
  | ok p =>
      constructor
      · intro h d hd
        exact h.usable d (congrArg Except.ok hd)
      · intro h
        exact harmless_of (by simp) fun d hd => h d (Except.ok.inj hd)
  | error e =>
      cases e with
      | fault f => exact iff_of_false (fun h => h.read f rfl) fun h => h ⟨f, rfl⟩
      | logic_error what => exact iff_of_true harmless_none (caught_logic_error what)
      | length_error => exact iff_of_true harmless_none caught_length_error
      | out_of_range => exact iff_of_true harmless_none caught_out_of_range

/-- Of all files, `readTimeZoneFile` is harmed exactly by the hostile ones: those
whose first block has a length that overflows, and those with all in order in
the block that is read up to a time that overflows, or up to the abbreviations,
but these of a negative length, or there without a type. -/
theorem harmless_iff (host : ByteOrder) (content : List UInt8) :
    Harmless (readTimeZoneFile host (some content) {}) ↔ ¬HostileFile host content := by
  rw [harmless_iff_yieldsUsable, yieldsUsable_readZone, HostileFile, not_or]
  refine and_congr_right fun _ => ?_
  constructor
  · rintro h ⟨v1, block, hblock, hhostile⟩
    exact h v1 block hblock hhostile
  · intro h v1 block hblock hhostile
    exact h ⟨v1, block, hblock, hhostile⟩

/-- A header of version 1, and nothing in it. -/
def noTypes : List UInt8 := TZif ++ List.replicate 40 0

/-- One type, and -1 bytes of abbreviations. -/
def negativeChars : List UInt8 :=
  TZif ++ List.replicate 35 0 ++ [1, 0xff, 0xff, 0xff, 0xff] ++ List.replicate 6 0

/-- A file of version 2 with nothing in its first block. In the second a clock one
second ahead is set at the last `int64_t`, and again there are -1 bytes of
abbreviations. -/
def lastSecond : List UInt8 :=
  TZif ++ [0x32] ++ List.replicate 39 0 ++ TZif ++ List.replicate 28 0 ++
    [0, 0, 0, 1, 0, 0, 0, 1, 0xff, 0xff, 0xff, 0xff] ++
    [0x7f, 0xff, 0xff, 0xff, 0xff, 0xff, 0xff, 0xff, 0, 0, 0, 0, 1, 0, 0]

/-- All three are malformed. From the first comes a zone with no local time, and
from the others nothing: `readBytes` is to read -1 bytes, in the last one behind
an overflow. -/
theorem harmful_files :
    readTimeZoneFile .little (some noTypes) {} = .ok (some {}) ∧
      ({} : ZoneData).findLocalTime 0 = .error .outOfBounds ∧
      ¬Harmless (readTimeZoneFile .little (some noTypes) {}) ∧
      readTimeZoneFile .little (some negativeChars) {} = .error .outOfBounds ∧
      ¬Harmless (readTimeZoneFile .little (some negativeChars) {}) ∧
      readTimeZoneFile .little (some lastSecond) {} = .error .signedOverflow ∧
      ¬Harmless (readTimeZoneFile .little (some lastSecond) {}) := by
  have hnone : readTimeZoneFile .little (some noTypes) {} = .ok (some {}) := by decide +kernel
  have hnegative : readTimeZoneFile .little (some negativeChars) {} = .error .outOfBounds := by
    decide +kernel
  have hover : readTimeZoneFile .little (some lastSecond) {} = .error .signedOverflow := by
    decide +kernel
  refine ⟨hnone, rfl, fun h => ?_, hnegative, fun h => h.read _ hnegative, hover,
    fun h => h.read _ hover⟩
  exact (h.usable _ hnone).nonempty rfl

end Libanet
