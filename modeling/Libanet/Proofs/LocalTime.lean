import Libanet.Proofs.Calendar

/-!
# From UTC to local time and back

`toLocalTime` finds the offset in force by searching the transitions for the
UTC second. Back, `fromLocalTime` has only the local time, and searches for
the transition around it; but the search compares UTC times, and the UTC time
of what it looks for is 0. So whatever it is asked, it ends up at the
transition in force at second 0, looks at its neighbours, and answers with the
offset of one of the three.

For a second in the stretch that second 0 is in, this is right, and
`fromLocalTime` leads back. For others it is right by luck: when the offset
it settles on happens to be the one that was in force. When the first
transition is after second 0 there is nothing before what the search finds,
and an assertion fails. `Lands` puts this together, and
`local_round_trip_iff` shows that it is exactly when the round trip works,
for tables and seconds where there is only one way back.
-/

namespace Libanet

namespace ZoneData

/-! ## The table -/

def utctimeOf (d : ZoneData) (i : Nat) : Int := (d.transitions[i]?).elim 0 Transition.utctime

/-- The offset that transition `i` brings. -/
def offsetFrom (d : ZoneData) (i : Nat) : Int :=
  ((d.transitions[i]?).bind fun trans => d.localtimes[trans.localtimeIdx]?).elim 0
    LocalTime.utcOffset

/-- How many transitions there are up to the first that is after `t`. -/
def passed (d : ZoneData) (t : Int) : Nat := d.transitions.findIdx fun trans => t < trans.utctime

/-- The transition in force at `t`, if there is one. -/
def inForce (d : ZoneData) (t : Int) : Nat := d.passed t - 1

/-- The offset in force at `t`: before the first transition, it is that of the
first type. -/
def offsetAt (d : ZoneData) (t : Int) : Int :=
  if d.passed t = 0 then (d.localtimes[0]?).elim 0 LocalTime.utcOffset
  else d.offsetFrom (d.inForce t)

/-- A table whose transitions were made by `addTransition`, and ascend on both
clocks. -/
structure Valid (d : ZoneData) : Prop where
  nonempty : d.localtimes ≠ []
  offset : ∀ lt ∈ d.localtimes, Fits 32 lt.utcOffset
  utctime : ∀ trans ∈ d.transitions, Fits 64 trans.utctime ∧ Fits 64 trans.localtime
  localtime : ∀ trans ∈ d.transitions, ∃ lt, d.localtimes[trans.localtimeIdx]? = some lt ∧
    trans.localtime = trans.utctime + lt.utcOffset
  ascending : d.transitions.Pairwise fun trans next => trans.utctime < next.utctime
  ascendingLocal : d.transitions.Pairwise fun trans next => trans.localtime < next.localtime

variable {d : ZoneData}

theorem Valid.entry (hv : d.Valid) {i : Nat} (hi : i < d.transitions.length) :
    ∃ trans lt, d.transitions[i]? = some trans ∧ d.localtimes[trans.localtimeIdx]? = some lt ∧
      trans.utctime = d.utctimeOf i ∧ lt.utcOffset = d.offsetFrom i ∧
      trans.localtime = d.utctimeOf i + d.offsetFrom i := by
  have hget := List.getElem?_eq_getElem hi
  obtain ⟨lt, hlt, hlocal⟩ := hv.localtime _ (List.getElem_mem hi)
  have hu : d.utctimeOf i = (d.transitions[i]).utctime := by simp [utctimeOf, hget]
  have ho : d.offsetFrom i = lt.utcOffset := by simp [offsetFrom, hget, hlt]
  exact ⟨_, lt, hget, hlt, hu.symm, ho.symm, by rw [hlocal, hu, ho]⟩

theorem Valid.fits (hv : d.Valid) {i : Nat} (hi : i < d.transitions.length) :
    Fits 64 (d.utctimeOf i) ∧ Fits 64 (d.utctimeOf i + d.offsetFrom i) ∧
      Fits 32 (d.offsetFrom i) := by
  obtain ⟨trans, lt, htrans, hlt, hu, ho, hl⟩ := hv.entry hi
  obtain ⟨hfu, hfl⟩ := hv.utctime trans (List.mem_of_getElem? htrans)
  have hfo := hv.offset lt (List.mem_of_getElem? hlt)
  rw [← hl, ← hu, ← ho]
  exact ⟨hfu, hfl, hfo⟩

theorem Valid.utctime_lt (hv : d.Valid) {i j : Nat} (hij : i < j)
    (hj : j < d.transitions.length) : d.utctimeOf i < d.utctimeOf j := by
  obtain ⟨trans, -, hi, -, hu, -⟩ := hv.entry (Nat.lt_trans hij hj)
  obtain ⟨next, -, hn, -, hun, -⟩ := hv.entry hj
  rw [← hu, ← hun]
  obtain ⟨hli, rfl⟩ := List.getElem?_eq_some_iff.mp hi
  obtain ⟨hlj, rfl⟩ := List.getElem?_eq_some_iff.mp hn
  exact List.pairwise_iff_getElem.mp hv.ascending i j hli hlj hij

theorem Valid.local_lt (hv : d.Valid) {i j : Nat} (hij : i < j)
    (hj : j < d.transitions.length) :
    d.utctimeOf i + d.offsetFrom i < d.utctimeOf j + d.offsetFrom j := by
  obtain ⟨trans, -, hi, -, -, -, hl⟩ := hv.entry (Nat.lt_trans hij hj)
  obtain ⟨next, -, hn, -, -, -, hln⟩ := hv.entry hj
  rw [← hl, ← hln]
  obtain ⟨hli, rfl⟩ := List.getElem?_eq_some_iff.mp hi
  obtain ⟨hlj, rfl⟩ := List.getElem?_eq_some_iff.mp hn
  exact List.pairwise_iff_getElem.mp hv.ascendingLocal i j hli hlj hij

/-! ## The search -/

theorem Valid.later (hv : d.Valid) (t : Int) :
    Ascending (fun trans : Transition => decide (t < trans.utctime)) d.transitions := by
  intro i j x y hij hi hj hx
  rcases Nat.lt_or_eq_of_le hij with hlt | rfl
  · obtain ⟨hli, rfl⟩ := List.getElem?_eq_some_iff.mp hi
    obtain ⟨hlj, rfl⟩ := List.getElem?_eq_some_iff.mp hj
    have hasc := List.pairwise_iff_getElem.mp hv.ascending i j hli hlj hlt
    simp only [decide_eq_true_eq] at hx ⊢
    omega
  · cases hi.symm.trans hj
    exact hx

theorem Valid.upperBound_eq (hv : d.Valid) (t localtime : Int) (idx : Nat) :
    upperBound (compareUtcTime ⟨t, localtime, idx⟩) d.transitions = d.passed t :=
  upperBound_eq_findIdx (hv.later t)

theorem Valid.passed_spec (hv : d.Valid) (t : Int) :
    d.passed t ≤ d.transitions.length ∧ (∀ i < d.passed t, d.utctimeOf i ≤ t) ∧
      ∀ i, d.passed t ≤ i → i < d.transitions.length → t < d.utctimeOf i := by
  obtain ⟨hle, hbefore, hafter⟩ := findIdx_parts (hv.later t)
  refine ⟨hle, ?_, ?_⟩
  · intro i hi
    have hlen : i < d.transitions.length := Nat.lt_of_lt_of_le hi hle
    obtain ⟨trans, -, htrans, -, hu, -⟩ := hv.entry hlen
    have hnot := hbefore i trans hi htrans
    rw [← hu]
    simpa using hnot
  · intro i hi hlen
    obtain ⟨trans, -, htrans, -, hu, -⟩ := hv.entry hlen
    have hlater := hafter i trans hi htrans
    rw [← hu]
    simpa using hlater

theorem index_eq_ok {α : Type} {v : List α} {i : Nat} {x : α} (h : v[i]? = some x) :
    index v i = .ok x := by
  simp [index, h]

theorem Valid.lookup (hv : d.Valid) {i : Nat} (hi : i < d.transitions.length) :
    ∃ trans lt, index d.transitions i = .ok trans ∧
      index d.localtimes trans.localtimeIdx = .ok lt ∧
      trans.utctime = d.utctimeOf i ∧ lt.utcOffset = d.offsetFrom i := by
  obtain ⟨trans, lt, htrans, hlt, hu, ho, -⟩ := hv.entry hi
  exact ⟨trans, lt, index_eq_ok htrans, index_eq_ok hlt, hu, ho⟩

theorem back_eq {α : Type} (v : List α) : back v = index v (v.length - 1) := by
  rw [back, index, List.getLast?_eq_getElem?]

theorem Valid.passed_eq_zero (hv : d.Valid) {t : Int} (hne : d.transitions ≠ []) :
    d.passed t = 0 ↔ t < d.utctimeOf 0 := by
  obtain ⟨-, hbefore, hafter⟩ := hv.passed_spec t
  have hpos := List.length_pos_iff.mpr hne
  constructor
  · intro hzero
    exact hafter 0 (by omega) hpos
  · intro hlt
    by_contra hzero
    have hle := hbefore 0 (by omega)
    omega

theorem Valid.front_localtimes (hv : d.Valid) : ∃ lt, front d.localtimes = .ok lt ∧
    lt.utcOffset = (d.localtimes[0]?).elim 0 LocalTime.utcOffset := by
  cases hlts : d.localtimes with
  | nil => exact absurd hlts hv.nonempty
  | cons lt lts => exact ⟨lt, rfl, rfl⟩

/-- `findLocalTime` finds the offset in force. -/
theorem Valid.findLocalTime_eq (hv : d.Valid) (t : Int) :
    ∃ lt, d.findLocalTime t = .ok lt ∧ lt.utcOffset = d.offsetAt t := by
  obtain ⟨lt₀, hfront, ho₀⟩ := hv.front_localtimes
  unfold findLocalTime
  split
  · next hnil =>
      refine ⟨lt₀, hfront, ?_⟩
      rw [offsetAt, if_pos (by simp [passed, hnil]), ho₀]
  · next first rest hcons =>
      have hne : d.transitions ≠ [] := by simp [hcons]
      have hu : d.utctimeOf 0 = first.utctime := by simp [utctimeOf, hcons]
      have hzero := hv.passed_eq_zero (t := t) hne
      rw [hu] at hzero
      by_cases hlt : t < first.utctime
      · rw [if_pos hlt]
        refine ⟨lt₀, hfront, ?_⟩
        rw [offsetAt, if_pos (hzero.mpr hlt), ho₀]
      · have hpos : d.passed t ≠ 0 := fun h => hlt (hzero.mp h)
        have hle := (hv.passed_spec t).1
        obtain ⟨trans, lt, htrans, hltrans, -, ho⟩ :=
          hv.lookup (i := d.passed t - 1) (by omega)
        refine ⟨lt, ?_, ?_⟩
        · rw [if_neg hlt]
          dsimp only
          rw [hv.upperBound_eq, assertThat_of hpos, ok_bind]
          by_cases hend : d.passed t ≠ d.transitions.length
          · rw [if_pos hend, htrans, ok_bind, hltrans]
          · rw [if_neg hend, back_eq, ← not_not.mp hend, htrans, ok_bind, hltrans]
        · rw [offsetAt, if_neg hpos, inForce, ho]

/-! ## The search by local time -/

/-- Where `findLocalTime` settles, given the transition in force at second 0:
there, or at one of its neighbours. -/
def settled (d : ZoneData) (e : Nat) (localtime : Int) (postTransition : Bool) : Nat :=
  if e + 1 = d.transitions.length then e
  else if d.utctimeOf (e + 1) + d.offsetFrom e ≤ localtime then
    if postTransition then e + 1 else e
  else if 0 < e ∧ localtime < d.utctimeOf e + d.offsetFrom (e - 1) then
    if postTransition then e else e - 1
  else e

/-- The end of a stretch, on the clock of the stretch, is after its beginning. -/
theorem Valid.priorSecond_eq (hv : d.Valid) {i : Nat} {trans prior_trans : Transition}
    {lt : LocalTime} (hi : i + 1 < d.transitions.length)
    (hu : trans.utctime = d.utctimeOf (i + 1))
    (hlt : index d.localtimes prior_trans.localtimeIdx = .ok lt)
    (ho : lt.utcOffset = d.offsetFrom i)
    (hmax : d.utctimeOf (i + 1) - 1 + d.offsetFrom i ≤ 9223372036854775807) :
    d.priorSecond trans prior_trans = .ok (d.utctimeOf (i + 1) - 1 + d.offsetFrom i) := by
  have hasc := hv.utctime_lt (i := i) (by omega) hi
  obtain ⟨hlow, hlocal, -⟩ := hv.fits (i := i) (by omega)
  obtain ⟨hhigh, -, -⟩ := hv.fits hi
  rw [fits_long] at hlow hlocal hhigh
  rw [priorSecond, hlt, ok_bind, hu, ho, signed_of (fits_long.mpr (by omega)), ok_bind,
    signed_of (fits_long.mpr (by omega))]

theorem Valid.findAround_eq (hv : d.Valid) {e : Nat} (he : e + 1 < d.transitions.length)
    (hepoch : d.utctimeOf e ≤ 0)
    (hmax : d.utctimeOf (e + 1) - 1 + d.offsetFrom e ≤ 9223372036854775807)
    (localtime : Int) (postTransition : Bool) :
    ∃ lt, d.findAround (e + 1) localtime postTransition = .ok lt ∧
      lt.utcOffset = d.offsetFrom (d.settled e localtime postTransition) := by
  obtain ⟨next, ltn, hnext, hltn, hun, hon⟩ := hv.lookup he
  obtain ⟨trans, lt, htrans, hlt, hu, ho⟩ := hv.lookup (Nat.lt_of_succ_lt he)
  have hlast : e + 1 ≠ d.transitions.length := Nat.ne_of_lt he
  unfold findAround
  rw [hnext, ok_bind, Nat.add_sub_cancel, htrans, ok_bind,
    hv.priorSecond_eq he hun hlt ho hmax, ok_bind]
  by_cases hafter : d.utctimeOf (e + 1) - 1 + d.offsetFrom e < localtime
  · have hpast : d.utctimeOf (e + 1) + d.offsetFrom e ≤ localtime := by omega
    rw [if_pos hafter, settled, if_neg hlast, if_pos hpast]
    cases postTransition with
    | true => exact ⟨ltn, hltn, hon⟩
    | false => exact ⟨lt, hlt, ho⟩
  · have hpast : ¬ d.utctimeOf (e + 1) + d.offsetFrom e ≤ localtime := by omega
    rw [if_neg hafter, settled, if_neg hlast, if_neg hpast]
    dsimp only
    rw [htrans, ok_bind]
    cases e with
    | zero =>
        -- what is left from before is the transition itself and its end
        have hstale : localtime ≤ d.utctimeOf (0 + 1) - 1 + d.offsetFrom 0 := by omega
        have hfirst : ¬ (0 < 0 ∧ localtime < d.utctimeOf 0 + d.offsetFrom (0 - 1)) := by omega
        rw [if_neg hfirst, if_neg (not_not.mpr rfl), pure_bind]
        dsimp only
        rw [if_pos hstale]
        cases postTransition with
        | true => exact ⟨lt, hlt, ho⟩
        | false => exact ⟨lt, hlt, ho⟩
    | succ e =>
        obtain ⟨prior, ltp, hprior, hltp, -, hop⟩ := hv.lookup (i := e) (by omega)
        have hoff := fits_int.mp (hv.fits (i := e) (by omega)).2.2
        rw [if_pos (Nat.succ_ne_zero e), Nat.add_sub_cancel, hprior, ok_bind,
          hv.priorSecond_eq (by omega) hu hltp hop (by omega), ok_bind, pure_bind]
        dsimp only
        by_cases hbefore : localtime ≤ d.utctimeOf (e + 1) - 1 + d.offsetFrom e
        · have hback : 0 < e + 1 ∧ localtime < d.utctimeOf (e + 1) + d.offsetFrom e := by omega
          rw [if_pos hbefore, if_pos hback]
          cases postTransition with
          | true => exact ⟨lt, hlt, ho⟩
          | false => exact ⟨ltp, hltp, hop⟩
        · have hback : ¬ (0 < e + 1 ∧ localtime < d.utctimeOf (e + 1) + d.offsetFrom e) := by
            omega
          rw [if_neg hbefore, if_neg hback]
          exact ⟨lt, hlt, ho⟩

theorem Valid.findAround_overflow (hv : d.Valid) {e : Nat} (he : e + 1 < d.transitions.length)
    (hmax : ¬ d.utctimeOf (e + 1) - 1 + d.offsetFrom e ≤ 9223372036854775807)
    (localtime : Int) (postTransition : Bool) :
    d.findAround (e + 1) localtime postTransition = .error .signedOverflow := by
  obtain ⟨next, ltn, hnext, -, hun, -⟩ := hv.lookup he
  obtain ⟨trans, lt, htrans, hlt, -, ho⟩ := hv.lookup (Nat.lt_of_succ_lt he)
  have hasc := hv.utctime_lt (i := e) (by omega) he
  obtain ⟨hlow, -, -⟩ := hv.fits (i := e) (by omega)
  obtain ⟨hhigh, -, -⟩ := hv.fits he
  rw [fits_long] at hlow hhigh
  have hnot : ¬ Fits 64 (d.utctimeOf (e + 1) - 1 + d.offsetFrom e) := by
    rw [fits_long]
    omega
  unfold findAround
  rw [hnext, ok_bind, Nat.add_sub_cancel, htrans, ok_bind, priorSecond, hlt, ok_bind, hun, ho,
    signed_of (fits_long.mpr (by omega)), ok_bind, signed, if_neg hnot]
  rfl

/-- The search finds a transition before the ones it has to choose from, and
can compute where the stretch between them ends. -/
def Searchable (d : ZoneData) : Prop :=
  d.utctimeOf 0 ≤ 0 ∧ (d.inForce 0 + 1 < d.transitions.length →
    d.utctimeOf (d.inForce 0 + 1) - 1 + d.offsetFrom (d.inForce 0) ≤ 9223372036854775807)

/-- The local time does not matter for where the search ends up. -/
theorem Valid.findLocalTimeOf_search (hv : d.Valid) {dt : DateTime} {localtime : Int}
    (hdt : fromUtcTime dt = .ok localtime) (hne : d.transitions ≠ [])
    (hle : d.utctimeOf 0 + d.offsetFrom 0 ≤ localtime) (postTransition : Bool) :
    d.findLocalTimeOf dt postTransition = (do
      assertThat (d.passed 0 ≠ 0)
      if d.passed 0 = d.transitions.length then
        let trans ← back d.transitions
        index d.localtimes trans.localtimeIdx
      else d.findAround (d.passed 0) localtime postTransition) := by
  obtain ⟨first, lt, hfirst, -, -, -, hl⟩ := hv.entry (List.length_pos_iff.mpr hne)
  unfold findLocalTimeOf
  rw [hdt, ok_bind]
  split
  · next hnil => exact absurd hnil hne
  · next first' rest hcons =>
      rw [hcons] at hfirst
      cases hfirst
      rw [if_neg (by omega)]
      dsimp only
      rw [hv.upperBound_eq]

theorem Valid.findLocalTimeOf_eq (hv : d.Valid) {dt : DateTime} {localtime : Int}
    (hdt : fromUtcTime dt = .ok localtime) (hne : d.transitions ≠ [])
    (hle : d.utctimeOf 0 + d.offsetFrom 0 ≤ localtime) (hs : d.Searchable)
    (postTransition : Bool) :
    ∃ lt, d.findLocalTimeOf dt postTransition = .ok lt ∧
      lt.utcOffset = d.offsetFrom (d.settled (d.inForce 0) localtime postTransition) := by
  have hpos : d.passed 0 ≠ 0 := by
    rw [Ne, hv.passed_eq_zero hne]
    exact Int.not_lt.mpr hs.1
  obtain ⟨hlen, hbefore, -⟩ := hv.passed_spec 0
  have hsucc : d.inForce 0 + 1 = d.passed 0 := Nat.sub_add_cancel (Nat.pos_of_ne_zero hpos)
  rw [hv.findLocalTimeOf_search hdt hne hle, assertThat_of hpos, ok_bind]
  by_cases hend : d.passed 0 = d.transitions.length
  · obtain ⟨trans, lt, htrans, hlt, -, ho⟩ := hv.lookup (i := d.inForce 0) (by omega)
    refine ⟨lt, ?_, ?_⟩
    · rw [if_pos hend, back_eq, ← hend, ← hsucc, Nat.add_sub_cancel, htrans, ok_bind, hlt]
    · rw [settled, if_pos (hsucc.trans hend), ho]
  · have hin : d.inForce 0 + 1 < d.transitions.length := by omega
    rw [if_neg hend, ← hsucc]
    exact hv.findAround_eq hin (hbefore _ (by omega)) (hs.2 hin) localtime postTransition

theorem Valid.findLocalTimeOf_error (hv : d.Valid) {dt : DateTime} {localtime : Int}
    (hdt : fromUtcTime dt = .ok localtime) (hne : d.transitions ≠ [])
    (hle : d.utctimeOf 0 + d.offsetFrom 0 ≤ localtime) (hs : ¬ d.Searchable)
    (postTransition : Bool) : ∃ f, d.findLocalTimeOf dt postTransition = .error f := by
  rw [hv.findLocalTimeOf_search hdt hne hle]
  by_cases hpos : d.passed 0 ≠ 0
  · have hzero : d.utctimeOf 0 ≤ 0 := by
      rw [Ne, hv.passed_eq_zero hne] at hpos
      omega
    obtain ⟨hin, hmax⟩ : d.inForce 0 + 1 < d.transitions.length ∧
        ¬ d.utctimeOf (d.inForce 0 + 1) - 1 + d.offsetFrom (d.inForce 0) ≤
          9223372036854775807 := by
      by_contra hcon
      refine hs ⟨hzero, fun hin => ?_⟩
      by_contra hmax
      exact hcon ⟨hin, hmax⟩
    have hsucc : d.inForce 0 + 1 = d.passed 0 := Nat.sub_add_cancel (Nat.pos_of_ne_zero hpos)
    refine ⟨.signedOverflow, ?_⟩
    rw [assertThat_of hpos, ok_bind, if_neg (by omega), ← hsucc,
      hv.findAround_overflow hin hmax]
  · refine ⟨.assertion, ?_⟩
    rw [assertThat, if_neg hpos]
    rfl

/-! ## There and back -/

/-- A second between two transitions. -/
theorem Valid.offsetAt_eq (hv : d.Valid) {t : Int} {i : Nat} (hi : i < d.transitions.length)
    (hle : d.utctimeOf i ≤ t) (hlt : i + 1 < d.transitions.length → t < d.utctimeOf (i + 1)) :
    d.inForce t = i ∧ d.offsetAt t = d.offsetFrom i := by
  obtain ⟨hlen, hbefore, hafter⟩ := hv.passed_spec t
  have hpassed : d.passed t = i + 1 := by
    by_contra hne
    rcases Nat.lt_or_gt_of_ne hne with hless | hmore
    · have h := hafter i (by omega) hi
      omega
    · have h := hbefore (i + 1) hmore
      have h' := hlt (by omega)
      omega
  have hforce : d.inForce t = i := by rw [inForce, hpassed, Nat.add_sub_cancel]
  refine ⟨hforce, ?_⟩
  rw [offsetAt, if_neg (by omega), hforce]

/-- After the first transition, a second is in a stretch. -/
theorem Valid.stretch (hv : d.Valid) {t : Int} (hne : d.transitions ≠ [])
    (hfirst : d.utctimeOf 0 ≤ t) :
    d.inForce t < d.transitions.length ∧ d.utctimeOf (d.inForce t) ≤ t ∧
      (d.inForce t + 1 < d.transitions.length → t < d.utctimeOf (d.inForce t + 1)) ∧
      d.offsetAt t = d.offsetFrom (d.inForce t) := by
  obtain ⟨hlen, hbefore, hafter⟩ := hv.passed_spec t
  have hpos : d.passed t ≠ 0 := by
    rw [Ne, hv.passed_eq_zero hne]
    exact Int.not_lt.mpr hfirst
  unfold inForce
  refine ⟨by omega, hbefore _ (by omega), fun h => hafter _ (by omega) h, ?_⟩
  rw [offsetAt, if_neg hpos, inForce]

/-- The local time of `t` is that of no other second. -/
def Unambiguous (d : ZoneData) (t : Int) : Prop :=
  ∀ t', Fits 64 t' → t' + d.offsetAt t' = t + d.offsetAt t → t' = t

/-- What has the local time of `t` in another stretch would be another second
with the same local time. -/
theorem Valid.elsewhere (hv : d.Valid) {t : Int} {i : Nat} (hu : d.Unambiguous t)
    (hi : i + 1 < d.transitions.length) (hne : d.inForce t ≠ i)
    (hle : d.utctimeOf i + d.offsetFrom i ≤ t + d.offsetAt t)
    (hlt : t + d.offsetAt t < d.utctimeOf (i + 1) + d.offsetFrom i) : False := by
  obtain ⟨hforce, hoff⟩ := hv.offsetAt_eq (t := t + d.offsetAt t - d.offsetFrom i) (i := i)
    (by omega) (by omega) (by omega)
  have hlow := fits_long.mp (hv.fits (i := i) (by omega)).1
  have hhigh := fits_long.mp (hv.fits hi).1
  have ht := hu (t + d.offsetAt t - d.offsetFrom i) (fits_long.mpr (by omega)) (by omega)
  rw [ht] at hforce
  exact hne hforce

/-- In the stretch of second 0 the search settles where it should. -/
theorem Valid.settled_same (hv : d.Valid) {t : Int} (hne : d.transitions ≠ [])
    (hfirst : d.utctimeOf 0 ≤ t) (hu : d.Unambiguous t) (postTransition : Bool) :
    d.settled (d.inForce t) (t + d.offsetAt t) postTransition = d.inForce t := by
  obtain ⟨hin, hle, hlt, hoff⟩ := hv.stretch hne hfirst
  unfold settled
  by_cases hlast : d.inForce t + 1 = d.transitions.length
  · rw [if_pos hlast]
  · have hnext := hlt (by omega)
    rw [if_neg hlast, if_neg (by omega)]
    refine if_neg ?_
    rintro ⟨hpos, hback⟩
    have hsucc : d.inForce t - 1 + 1 = d.inForce t := Nat.sub_add_cancel hpos
    have hlocal := hv.local_lt (i := d.inForce t - 1) (by omega) hin
    refine hv.elsewhere hu (i := d.inForce t - 1) (by omega) (by omega) (by omega) ?_
    rw [hsucc]
    exact hback

/-- After it, the search settles at its end. -/
theorem Valid.settled_later (hv : d.Valid) {t : Int} {e : Nat} (hne : d.transitions ≠ [])
    (hfirst : d.utctimeOf 0 ≤ t) (hu : d.Unambiguous t) (he : e < d.inForce t)
    (postTransition : Bool) :
    d.settled e (t + d.offsetAt t) postTransition = if postTransition then e + 1 else e := by
  obtain ⟨hin, hle, -, hoff⟩ := hv.stretch hne hfirst
  have hpast : d.utctimeOf (e + 1) + d.offsetFrom e ≤ t + d.offsetAt t := by
    by_contra hcon
    have hlocal := hv.local_lt he hin
    exact hv.elsewhere hu (i := e) (by omega) (by omega) (by omega) (by omega)
  rw [settled, if_neg (by omega), if_pos hpast]

/-- When the stretch of transition `i` ends, on its own clock. -/
def endOf (d : ZoneData) (i : Nat) : Int := d.utctimeOf (i + 1) + d.offsetFrom i

/-- What is taken off a local time from before the stretch of `e`: the offset of
`e` if there is nothing behind it, and else it depends on the ends of `e` and of
the stretch before. -/
def TakenOff (d : ZoneData) (e : Nat) (localtime : Int) (postTransition : Bool) (offset : Int) :
    Prop :=
  e + 1 = d.transitions.length ∧ offset = d.offsetFrom e ∨
    e + 1 ≠ d.transitions.length ∧
      (d.endOf e ≤ localtime ∧ offset = d.offsetFrom (if postTransition then e + 1 else e) ∨
        localtime < d.endOf e ∧ localtime < d.endOf (e - 1) ∧
          offset = d.offsetFrom (if postTransition then e else e - 1) ∨
        localtime < d.endOf e ∧ d.endOf (e - 1) ≤ localtime ∧ offset = d.offsetFrom e)

/-- The way back from the local time of `t` ends at `t`: `e` is the transition
in force at second 0, and `k` the one at `t`. -/
def Lands (d : ZoneData) (t : Int) (postTransition : Bool) : Prop :=
  d.transitions = [] ∨ d.Searchable ∧
    let e := d.inForce 0
    let k := d.inForce t
    k = e ∨
      e < k ∧ d.offsetFrom k = d.offsetFrom (if postTransition then e + 1 else e) ∨
      k < e ∧ d.TakenOff e (t + d.offsetFrom k) postTransition (d.offsetFrom k)

/-- It is the offset of where the search settles. -/
theorem offsetFrom_settled_iff {e : Nat} (he : 0 < e) (localtime : Int) (postTransition : Bool)
    (offset : Int) : offset = d.offsetFrom (d.settled e localtime postTransition) ↔
      d.TakenOff e localtime postTransition offset := by
  have hend : d.endOf (e - 1) = d.utctimeOf e + d.offsetFrom (e - 1) := by
    rw [endOf, Nat.sub_add_cancel he]
  unfold settled TakenOff
  by_cases hlast : e + 1 = d.transitions.length
  · rw [if_pos hlast]
    simp only [hlast, true_and, ne_eq, not_true_eq_false, false_and, or_false]
  · rw [if_neg hlast]
    simp only [hlast, false_and, false_or, ne_eq, not_false_eq_true, true_and, he]
    by_cases hpast : d.endOf e ≤ localtime
    · rw [if_pos (show d.utctimeOf (e + 1) + d.offsetFrom e ≤ localtime from hpast)]
      simp only [hpast, true_and, Int.not_lt.mpr hpast, false_and, or_false]
    · rw [if_neg (show ¬ d.utctimeOf (e + 1) + d.offsetFrom e ≤ localtime from hpast), ← hend]
      simp only [hpast, false_and, false_or, Int.not_le.mp hpast, true_and]
      by_cases hback : localtime < d.endOf (e - 1)
      · rw [if_pos hback]
        simp only [hback, true_and, Int.not_le.mpr hback, false_and, or_false]
      · rw [if_neg hback]
        simp only [hback, false_and, false_or, Int.not_lt.mp hback, true_and]

end ZoneData

/-- `fromLocalTime(toLocalTime(seconds), postTransition)`. -/
def TimeZone.roundTrip (seconds : Int) (postTransition : Bool) (z : TimeZone) :
    Except Fault Int := do
  let (localtime, _) ← z.toLocalTime seconds
  z.fromLocalTime localtime postTransition

namespace ZoneData

variable {d : ZoneData}

/-- On its way a second is turned into its local time, and what the search
finds is taken off it. -/
theorem Valid.roundTrip_eq (hv : d.Valid) {t : Int}
    (hcal : InCalendar (t + d.offsetAt t)) (postTransition : Bool) :
    ∃ dt, fromUtcTime dt = .ok (t + d.offsetAt t) ∧
      TimeZone.roundTrip t postTransition ⟨some d⟩ = (do
        let lt ← d.findLocalTimeOf dt postTransition
        signed 64 (t + d.offsetAt t - lt.utcOffset)) := by
  obtain ⟨lt, hfind, hoff⟩ := hv.findLocalTime_eq t
  obtain ⟨dt, hbreak, hback⟩ := breaks_back hcal
  have hbounds := hcal.bounds
  refine ⟨dt, hback, ?_⟩
  have hto : TimeZone.toLocalTime t ⟨some d⟩ = .ok (dt, lt.utcOffset) := by
    show (do let lt ← d.findLocalTime t; _) = _
    rw [hfind, ok_bind, hoff, signed_of (fits_long.mpr (by omega)), ok_bind, hbreak]
    rfl
  rw [TimeZone.roundTrip, hto, ok_bind]
  show (do let lt ← d.findLocalTimeOf dt postTransition; _) = _
  rw [hback]
  rfl

theorem Valid.offsetFrom_fits (hv : d.Valid) (i : Nat) : Fits 32 (d.offsetFrom i) := by
  by_cases hi : i < d.transitions.length
  · exact (hv.fits hi).2.2
  · have hnone : d.transitions[i]? = none := List.getElem?_eq_none (by omega)
    have hzero : d.offsetFrom i = 0 := by simp [offsetFrom, hnone]
    rw [hzero]
    decide

/-- Where the search settles decides. -/
theorem Valid.roundTrip_iff_settled (hv : d.Valid) {t : Int} (hne : d.transitions ≠ [])
    (hfirst : d.utctimeOf 0 ≤ t) (hcal : InCalendar (t + d.offsetAt t))
    (postTransition : Bool) :
    TimeZone.roundTrip t postTransition ⟨some d⟩ = .ok t ↔ d.Searchable ∧
      d.offsetAt t =
        d.offsetFrom (d.settled (d.inForce 0) (t + d.offsetAt t) postTransition) := by
  obtain ⟨hin, hle, -, hoff⟩ := hv.stretch hne hfirst
  have hlocal : d.utctimeOf 0 + d.offsetFrom 0 ≤ t + d.offsetAt t := by
    rcases Nat.eq_zero_or_pos (d.inForce t) with hzero | hpos
    · rw [hzero] at hle hoff
      omega
    · have hlt := hv.local_lt hpos hin
      omega
  obtain ⟨dt, hdt, htrip⟩ := hv.roundTrip_eq hcal postTransition
  rw [htrip]
  by_cases hs : d.Searchable
  · obtain ⟨lt, hfind, ho⟩ := hv.findLocalTimeOf_eq hdt hne hlocal hs postTransition
    have hfits := fits_int.mp (hv.offsetFrom_fits
      (d.settled (d.inForce 0) (t + d.offsetAt t) postTransition))
    have hbounds := hcal.bounds
    rw [hfind, ok_bind, ho, signed_of (fits_long.mpr (by omega)), Except.ok.injEq]
    constructor
    · intro heq
      exact ⟨hs, by omega⟩
    · rintro ⟨-, heq⟩
      omega
  · obtain ⟨f, hfind⟩ := hv.findLocalTimeOf_error hdt hne hlocal hs postTransition
    rw [hfind]
    constructor
    · intro h
      cases h
    · rintro ⟨hs', -⟩
      exact absurd hs' hs

/-- For a table that ascends on both clocks, and a second after its first
transition whose local time is its own and has a date, the way back from the
local time ends at the second exactly if `Lands` says so. -/
theorem local_round_trip_iff (hv : d.Valid) {t : Int} (ht : Fits 64 t)
    (hfirst : ∀ first ∈ d.transitions.head?, first.utctime ≤ t)
    (hu : d.Unambiguous t) (hcal : InCalendar (t + d.offsetAt t)) (postTransition : Bool) :
    TimeZone.roundTrip t postTransition ⟨some d⟩ = .ok t ↔ d.Lands t postTransition := by
  by_cases hne : d.transitions = []
  · obtain ⟨dt, hdt, htrip⟩ := hv.roundTrip_eq hcal postTransition
    obtain ⟨lt, hfront, ho⟩ := hv.front_localtimes
    have hoff : lt.utcOffset = d.offsetAt t := by
      rw [offsetAt, if_pos (by simp [passed, hne]), ho]
    have hfind : d.findLocalTimeOf dt postTransition = .ok lt := by
      rw [findLocalTimeOf, hdt, ok_bind]
      simp only [hne, hfront]
    refine iff_of_true ?_ (.inl hne)
    rw [htrip, hfind, ok_bind, hoff, Int.add_sub_cancel, signed_of ht]
  · have hzero : d.utctimeOf 0 ≤ t := by
      cases hcons : d.transitions with
      | nil => exact absurd hcons hne
      | cons first rest =>
          have hle := hfirst first (by simp [hcons])
          simpa [utctimeOf, hcons] using hle
    obtain ⟨-, -, -, hoff⟩ := hv.stretch hne hzero
    rw [hv.roundTrip_iff_settled hne hzero hcal, Lands, or_iff_right hne]
    refine and_congr_right fun _ => ?_
    dsimp only
    rcases Nat.lt_trichotomy (d.inForce t) (d.inForce 0) with hlt | heq | hgt
    · rw [hoff, offsetFrom_settled_iff (Nat.zero_lt_of_lt hlt)]
      constructor
      · intro h
        exact .inr (.inr ⟨hlt, h⟩)
      · rintro (h | ⟨h, -⟩ | ⟨-, h⟩)
        · omega
        · omega
        · exact h
    · refine iff_of_true ?_ (.inl heq)
      rw [← heq, hv.settled_same hne hzero hu, hoff]
    · rw [hv.settled_later hne hzero hu hgt, hoff]
      constructor
      · intro h
        exact .inr (.inl ⟨hgt, h⟩)
      · rintro (h | ⟨-, h⟩ | ⟨h, -⟩)
        · omega
        · exact h
        · omega

/-- An hour ahead from second 1000 to second 8000. -/
def oneShift : ZoneData where
  transitions := [⟨-10, -10, 0⟩, ⟨1000, 4600, 1⟩, ⟨8000, 8000, 0⟩]
  localtimes := [⟨0, false, 0⟩, ⟨3600, true, 4⟩]

theorem oneShift_valid : oneShift.Valid where
  nonempty := by decide
  offset := by decide
  utctime := by decide
  localtime := by
    intro trans htrans
    simp only [oneShift, List.mem_cons, List.not_mem_nil, or_false] at htrans
    rcases htrans with rfl | rfl | rfl
    · exact ⟨_, rfl, rfl⟩
    · exact ⟨_, rfl, rfl⟩
    · exact ⟨_, rfl, rfl⟩
  ascending := by decide
  ascendingLocal := by decide

theorem oneShift_offsetAt (t : Int) :
    oneShift.offsetAt t = if 1000 ≤ t ∧ t < 8000 then 3600 else 0 := by
  by_cases h₀ : -10 ≤ t
  · by_cases h₁ : 1000 ≤ t
    · by_cases h₂ : 8000 ≤ t
      · have h := (oneShift_valid.offsetAt_eq (t := t) (i := 2) (by decide) h₂
          (fun h => absurd h (by decide))).2
        rw [h, if_neg (by omega)]
        rfl
      · have h := (oneShift_valid.offsetAt_eq (t := t) (i := 1) (by decide) h₁
          (fun _ => Int.not_le.mp h₂)).2
        rw [h, if_pos (by omega)]
        rfl
    · have h := (oneShift_valid.offsetAt_eq (t := t) (i := 0) (by decide) h₀
        (fun _ => Int.not_le.mp h₁)).2
      rw [h, if_neg (by omega)]
      rfl
  · have h := (oneShift_valid.passed_eq_zero (t := t) (by decide)).mpr (Int.not_le.mp h₀)
    rw [offsetAt, if_pos h, if_neg (by omega)]
    rfl

theorem oneShift_unambiguous {t : Int} (h : t < 1000 ∨ 11600 ≤ t) :
    oneShift.Unambiguous t := by
  intro t' _ heq
  rw [oneShift_offsetAt, oneShift_offsetAt, if_neg (by omega : ¬ (1000 ≤ t ∧ t < 8000))] at heq
  split at heq
  · omega
  · omega

/-- Before the shift the way back is found. -/
theorem local_round_trip_iff_oneShift :
    oneShift.Lands 500 true ∧
      TimeZone.roundTrip 500 true ⟨some oneShift⟩ = .ok 500 := by
  have hlands : oneShift.Lands 500 true := by
    refine .inr ⟨⟨by decide, fun _ => by decide⟩, .inl rfl⟩
  have hu := oneShift_unambiguous (t := 500) (.inl (by decide))
  have hcal : InCalendar (500 + oneShift.offsetAt 500) := by
    rw [oneShift_offsetAt]
    exact ⟨by decide, by decide⟩
  exact ⟨hlands, (local_round_trip_iff oneShift_valid (by decide) (by decide) hu hcal true).mpr
    hlands⟩

/-- After it, second 12000 is turned into 8400. -/
theorem local_round_trip_misses :
    ¬ ∀ (d : ZoneData) (t : Int) (postTransition : Bool), d.Valid → Fits 64 t →
      (∀ first ∈ d.transitions.head?, first.utctime ≤ t) → d.Unambiguous t →
      TimeZone.roundTrip t postTransition ⟨some d⟩ = .ok t := by
  intro hback
  have hu := oneShift_unambiguous (t := 12000) (.inr (by decide))
  have hmiss : TimeZone.roundTrip 12000 true ⟨some oneShift⟩ = .ok 8400 := rfl
  have h := hback oneShift 12000 true oneShift_valid (by decide) (by decide) hu
  rw [hmiss] at h
  cases h

end ZoneData

end Libanet
