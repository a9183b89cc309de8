import Libanet.Net.SharedConn
import Libanet.Proofs.ServerFrame

/-!
# Who owns the connection a queued functor is for

`send`, `shutdown`, `startRead` and `stopRead` put functors on the queue that
are bound to `this`. Most of the time that is enough. While the connection is
in the map it is owned, and when it is taken out, `connectDestroyed` goes to the
end of the same queue and holds it until what is before it has run, and, since
the functors of one `doPendingFunctors` are destroyed together, what is behind
it in the same batch as well.

A functor that comes later is on its own. None of the calls keeps it from
coming: `startRead` and `stopRead` test nothing, and the others have tested
`state_` some time ago. All that keeps the connection then is the handle of the
thread that called, and when the thread drops it, the functor follows a dangling
pointer. And where the connection lives on the base loop, `~TcpServer` runs its
`connectDestroyed` ahead of the queue. `ownerless_functor` has a run of each.

So the last handle may be dropped, and the server destroyed on that loop, while
the connection is in the map or the functors in the queue cover one another:
wherever there is one that holds nothing, there is one with it that does. That
is the invariant, and no other step breaks it.
-/

namespace Libanet.Net

/-! ## What a connection queues -/

namespace TcpConnection

/-- What was queued meanwhile is bound to `shared_from_this()`. -/
def Posts (c c' : TcpConnection) : Prop :=
  ∃ fs, c'.posted = c.posted ++ fs ∧ ∀ f ∈ fs, f.isRaw = false

namespace Posts

variable {c c' d : TcpConnection}

theorem of_eq (h : c'.posted = c.posted) : Posts c c' := ⟨[], by rw [h, List.append_nil], nofun⟩

theorem refl (c : TcpConnection) : Posts c c := of_eq rfl

theorem trans (h₁ : Posts c d) (h₂ : Posts d c') : Posts c c' := by
  obtain ⟨fs, hfs, hf⟩ := h₁
  obtain ⟨gs, hgs, hg⟩ := h₂
  refine ⟨fs ++ gs, by rw [hgs, hfs, List.append_assoc], ?_⟩
  intro f hmem
  rcases List.mem_append.mp hmem with hmem | hmem
  · exact hf f hmem
  · exact hg f hmem

/-- Fields other than the queue do not matter to where it starts. -/
theorem head (h : Posts d c') (hp : d.posted = c.posted) : Posts c c' := by
  obtain ⟨fs, hfs, hf⟩ := h
  exact ⟨fs, hp ▸ hfs, hf⟩

theorem of_outputStep (h : OutputStep c c') : Posts c c' := by
  obtain ⟨fs, hfs, hcb⟩ := h.posted
  refine ⟨fs, hfs, fun f hf => ?_⟩
  have hcb := hcb f hf
  cases f with
  | writeCompleteCallback => rfl
  | highWaterMarkCallback len => rfl
  | _ => cases hcb

theorem sendInLoop {data : List UInt8} {w : WriteResult}
    (h : c.sendInLoop data w = .ok c') : Posts c c' := by
  obtain ⟨d, hd, hs, -⟩ := sendInLoop_spec c data w
  cases hd.symm.trans h
  exact of_outputStep hs

theorem call {k : Call} (hk : k.fromLoop = true) (h : c.call k = .ok c') : Posts c c' := by
  cases k with
  | send inLoop message w =>
      have hk : inLoop = true := hk
      subst hk
      simp only [TcpConnection.call, send] at h
      split at h
      · exact sendInLoop h
      · cases h
        exact refl c
  | shutdown inLoop =>
      have hk : inLoop = true := hk
      subst hk
      cases h
      unfold TcpConnection.shutdown
      split
      · exact (of_outputStep (shutdownInLoop_spec _).1).head rfl
      · exact refl c
  | forceClose =>
      cases h
      unfold TcpConnection.forceClose
      split
      · refine ⟨[.forceCloseInLoop], rfl, fun f hf => ?_⟩
        rw [List.mem_singleton.mp hf]
        rfl
      · exact refl c
  | startRead inLoop =>
      have hk : inLoop = true := hk
      subst hk
      cases h
      exact of_outputStep (startReadInLoop_spec c).1
  | stopRead inLoop =>
      have hk : inLoop = true := hk
      subst hk
      cases h
      exact of_outputStep (stopReadInLoop_spec c).1

theorem calls {ks : List Call} (hk : ks.all Call.fromLoop = true)
    (h : c.calls ks = .ok c') : Posts c c' := by
  induction ks generalizing c with
  | nil =>
      cases h
      exact refl _
  | cons k ks ih =>
      obtain ⟨hk, hks⟩ := Bool.and_eq_true_iff.mp hk
      obtain ⟨d, hd, h⟩ := bind_eq_ok.mp h
      exact (call hk hd).trans (ih hks h)

theorem handleClose {down close : List Call} (hd : down.all Call.fromLoop = true)
    (hcl : close.all Call.fromLoop = true) (h : c.handleClose down close = .ok c') :
    Posts c c' := by
  obtain ⟨-, h⟩ := assertThat_bind_eq_ok.mp h
  obtain ⟨d, hdown, h⟩ := bind_eq_ok.mp h
  exact ((calls hd hdown).head rfl).trans ((calls hcl h).head rfl)

theorem connectEstablished {up : List Call} (hup : up.all Call.fromLoop = true)
    (h : c.connectEstablished up = .ok c') : Posts c c' := by
  obtain ⟨-, h⟩ := assertThat_bind_eq_ok.mp h
  exact (calls hup h).head rfl

theorem connectDestroyed {down : List Call} (hd : down.all Call.fromLoop = true)
    (h : c.connectDestroyed down = .ok c') : Posts c c' := by
  unfold TcpConnection.connectDestroyed at h
  split at h
  · obtain ⟨d, hdown, h⟩ := bind_eq_ok.mp h
    obtain ⟨ch, -, h⟩ := bind_eq_ok.mp h
    cases h
    exact ((calls hd hdown).head rfl).trans (of_eq rfl)
  · obtain ⟨d, hd', h⟩ := bind_eq_ok.mp h
    obtain ⟨ch, -, h⟩ := bind_eq_ok.mp h
    cases hd'
    cases h
    exact of_eq rfl

theorem handleRead {e : EventScript} (hm : e.message.all Call.fromLoop = true)
    (hd : e.down.all Call.fromLoop = true) (hcl : e.close.all Call.fromLoop = true)
    {t : Timestamp} (h : c.handleRead e.read e.message e.down e.close t = .ok c') :
    Posts c c' := by
  cases hr : e.read with
  | data =>
      rw [hr] at h
      exact (calls hm h).head rfl
  | eof =>
      rw [hr] at h
      exact handleClose hd hcl h
  | failed =>
      rw [hr] at h
      cases h
      exact refl c

theorem handleWrite {w : WriteResult} (h : c.handleWrite w = .ok c') : Posts c c' := by
  unfold TcpConnection.handleWrite at h
  split at h
  · cases w with
    | failed err =>
        cases h
        exact of_eq rfl
    | wrote n =>
        dsimp only at h
        split at h
        · obtain ⟨b, -, h⟩ := bind_eq_ok.mp h
          dsimp only at h
          split at h
          · cases h
            exact (of_outputStep (outputDrained_spec _).1).head rfl
          · cases h
            exact of_eq rfl
        · cases h
          exact of_eq rfl
  · cases h
    exact refl c

/-- A callback of the channel, if it is called at all. -/
theorem fire {cond : Bool} {callback : Option (TcpConnection → Except Fault TcpConnection)}
    (hcb : ∀ f, callback = some f → ∀ {a b}, f a = .ok b → Posts a b)
    (h : Channel.fire cond callback c = .ok c') : Posts c c' := by
  unfold Channel.fire at h
  split at h
  · cases hc : callback with
    | none =>
        rw [hc] at h
        cases h
        exact refl c
    | some f =>
        rw [hc] at h
        exact hcb f hc h
  · cases h
    exact refl c

theorem handleEvent {e : EventScript} (hm : e.message.all Call.fromLoop = true)
    (hd : e.down.all Call.fromLoop = true) (hcl : e.close.all Call.fromLoop = true)
    {locked : Bool} {revents : EventMask} {t : Timestamp}
    (h : c.handleEvent e locked revents t = .ok c') : Posts c c' := by
  by_cases hdrop : c.channel.tied = true ∧ locked = false
  · rw [TcpConnection.handleEvent, Channel.handleEvent, if_pos hdrop.1, hdrop.2] at h
    cases h
    exact refl c
  · rw [TcpConnection.handleEvent, Channel.handleEvent_dispatched hdrop] at h
    obtain ⟨c₁, hc₁, h⟩ := bind_eq_ok.mp h
    obtain ⟨c₂, hc₂, h⟩ := bind_eq_ok.mp h
    obtain ⟨c₃, hc₃, h⟩ := bind_eq_ok.mp h
    refine (fire ?_ hc₁).trans ((fire ?_ hc₂).trans ((fire ?_ hc₃).trans (fire ?_ h)))
    · rintro f hf a b hab
      cases hf
      exact handleClose hd hcl hab
    · rintro f hf a b hab
      cases hf
      cases hab
      exact refl a
    · rintro f hf a b hab
      cases hf
      exact handleRead hm hd hcl hab
    · rintro f hf a b hab
      cases hf
      exact handleWrite hab

theorem runFunctor {f : ConnFunctor} {w : WriteResult} {ks down close : List Call}
    (hk : ks.all Call.fromLoop = true) (hd : down.all Call.fromLoop = true)
    (hcl : close.all Call.fromLoop = true) (h : c.runFunctor f w ks down close = .ok c') :
    Posts c c' := by
  cases f with
  | sendInLoop message => exact sendInLoop h
  | shutdownInLoop =>
      cases h
      exact of_outputStep (shutdownInLoop_spec c).1
  | forceCloseInLoop =>
      have h : c.forceCloseInLoop down close = .ok c' := h
      unfold TcpConnection.forceCloseInLoop at h
      split at h
      · exact handleClose hd hcl h
      · cases h
        exact refl c
  | startReadInLoop =>
      cases h
      exact of_outputStep (startReadInLoop_spec c).1
  | stopReadInLoop =>
      cases h
      exact of_outputStep (stopReadInLoop_spec c).1
  | writeCompleteCallback => exact calls hk h
  | highWaterMarkCallback len => exact calls hk h

end Posts

end TcpConnection

/-! ## The condition and the invariant -/

namespace SharedConn

variable {Tid : Type}

/-- Wherever a functor is queued that holds nothing, there is one that does and
is destroyed no earlier: with it in the queue, or with it in the batch, or, for
one in the batch, in the queue behind it. -/
def covered (s : SharedConn Tid) : Bool :=
  (s.pendingFunctors.all (!·.isRaw) || s.pendingFunctors.any (!·.isRaw)) &&
    (s.todo.all (!·.isRaw) || (s.functors ++ s.pendingFunctors).any (!·.isRaw))

/-- A step that may take the last owner that is not a functor leaves the
functors covered. -/
def keepsOwner [DecidableEq Tid] (s : SharedConn Tid) : SharedAction Tid → Bool
  | .drop t => !(s.handles.erase t).isEmpty || s.mapped || s.covered
  | .destroyServer _ => !(s.onBaseLoop && s.mapped) || !s.handles.isEmpty || s.covered
  | _ => true

structure Inv (s : SharedConn Tid) : Prop where
  posted : s.conn.posted = []
  calling : ∀ t, s.calling t ≠ none → t ∈ s.handles
  batch : s.callingPendingFunctors = false → s.todo = []
  owned : s.handles ≠ [] ∨ s.mapped = true ∨ s.covered = true

/-- A functor in the queue that holds the connection covers all the others. -/
theorem covered_of_mem {s : SharedConn Tid} {f : ConnWork} (hf : f ∈ s.pendingFunctors)
    (hraw : f.isRaw = false) : s.covered = true := by
  have hany : s.pendingFunctors.any (!·.isRaw) = true :=
    List.any_eq_true.mpr ⟨f, hf, by rw [hraw]; rfl⟩
  simp [covered, hany]

/-- The queue grows by functors that hold the connection, and the batch is
worked off. -/
theorem covered_mono {s t : SharedConn Tid} (h : s.covered = true) (fs : List ConnWork)
    (hp : t.pendingFunctors = s.pendingFunctors ++ fs) (hfs : ∀ f ∈ fs, f.isRaw = false)
    (hv : t.functors = s.functors) (ht : ∀ f ∈ t.todo, f ∈ s.todo) : t.covered = true := by
  cases fs with
  | cons f fs =>
      have hmem : f ∈ t.pendingFunctors := by
        rw [hp]
        simp
      exact covered_of_mem hmem (hfs f List.mem_cons_self)
  | nil =>
      rw [List.append_nil] at hp
      unfold covered at h ⊢
      obtain ⟨hpend, htodo⟩ := Bool.and_eq_true_iff.mp h
      rw [hp, hv]
      refine Bool.and_eq_true_iff.mpr ⟨hpend, ?_⟩
      rcases Bool.or_eq_true_iff.mp htodo with hall | hany
      · refine Bool.or_eq_true_iff.mpr (.inl (List.all_eq_true.mpr fun f hf => ?_))
        exact List.all_eq_true.mp hall f (ht f hf)
      · exact Bool.or_eq_true_iff.mpr (.inr hany)

theorem mem_owners_of_functor {s : SharedConn Tid} {f : ConnWork}
    (hf : f ∈ s.pendingFunctors ∨ f ∈ s.functors) (hraw : f.isRaw = false) :
    .functor f ∈ s.owners := by
  have hmem : f ∈ (s.pendingFunctors ++ s.functors).filter (!·.isRaw) :=
    List.mem_filter.mpr ⟨List.mem_append.mpr hf, by rw [hraw]; rfl⟩
  simp only [owners, List.mem_append]
  exact .inl (.inr (List.mem_map_of_mem hmem))

/-- A functor that is about to run has an owner, if only the functors that are
with it. -/
theorem Inv.owners_ne_nil {s : SharedConn Tid} (hi : s.Inv) {f : ConnWork} (hf : f ∈ s.todo)
    (hraw : f.isRaw = true) : s.owners ≠ [] := by
  rcases hi.owned with hh | hm | hc
  · obtain ⟨t, ht⟩ := List.exists_mem_of_ne_nil _ hh
    have hmem : .handle t ∈ s.owners := by
      simp only [owners, List.mem_append]
      exact .inl (.inl (.inr (List.mem_map_of_mem ht)))
    exact List.ne_nil_of_mem hmem
  · have hmem : .connections ∈ s.owners := by simp [owners, hm]
    exact List.ne_nil_of_mem hmem
  · obtain ⟨-, htodo⟩ := Bool.and_eq_true_iff.mp hc
    rcases Bool.or_eq_true_iff.mp htodo with hall | hany
    · have hnot := List.all_eq_true.mp hall f hf
      rw [hraw] at hnot
      cases hnot
    · obtain ⟨g, hg, hown⟩ := List.any_eq_true.mp hany
      refine List.ne_nil_of_mem (mem_owners_of_functor ?_ (by simpa using hown))
      exact (List.mem_append.mp hg).symm

/-! ## The loop and the server -/

theorem Inv.store {s : SharedConn Tid} (hi : s.Inv) {c : TcpConnection}
    (hc : TcpConnection.Posts s.conn c) : (s.store c).Inv := by
  obtain ⟨fs, hfs, hraw⟩ := hc
  rw [hi.posted, List.nil_append] at hfs
  refine ⟨rfl, hi.calling, hi.batch, hi.owned.imp_right (.imp_right fun h => ?_)⟩
  refine covered_mono h (c.posted.map .connFunctor) rfl ?_ rfl fun _ h => h
  intro f hf
  obtain ⟨g, hg, rfl⟩ := List.mem_map.mp hf
  rw [hfs] at hg
  exact hraw g hg

theorem Inv.removeConnectionInLoop {s t : SharedConn Tid} (hi : s.Inv)
    (h : s.removeConnectionInLoop = .ok t) : t.Inv := by
  unfold SharedConn.removeConnectionInLoop at h
  split at h
  · cases h
  · obtain ⟨-, h⟩ := assertThat_bind_eq_ok.mp h
    cases h
    refine ⟨hi.posted, hi.calling, hi.batch, .inr (.inr ?_)⟩
    exact covered_of_mem (f := .connectDestroyed) (by simp [queueInLoop]) rfl

theorem Inv.removeConnection {s t : SharedConn Tid} (hi : s.Inv)
    (h : s.removeConnection = .ok t) : t.Inv := by
  unfold SharedConn.removeConnection at h
  split at h
  · cases h
  · split at h
    · exact hi.removeConnectionInLoop h
    · cases h
      exact ⟨hi.posted, hi.calling, hi.batch, hi.owned⟩

theorem Inv.closeCallbacks {n : Nat} {s t : SharedConn Tid} (hi : s.Inv)
    (h : s.closeCallbacks n = .ok t) : t.Inv := by
  induction n generalizing s with
  | zero =>
      cases h
      exact hi
  | succ n ih =>
      obtain ⟨u, hu, h⟩ := bind_eq_ok.mp h
      exact ih (hi.removeConnection hu) h

theorem Inv.ran {s t : SharedConn Tid} (hi : s.Inv) {c : TcpConnection}
    (hc : TcpConnection.Posts s.conn c) (h : s.ran c = .ok t) : t.Inv :=
  (hi.store hc).closeCallbacks h

theorem Inv.destroyServer {s t : SharedConn Tid} (hi : s.Inv) {down : List Call}
    (hd : down.all Call.fromLoop = true)
    (hk : s.onBaseLoop = true → s.mapped = true → s.handles ≠ [] ∨ s.covered = true)
    (h : s.destroyServer down = .ok t) : t.Inv := by
  unfold SharedConn.destroyServer at h
  split at h
  · cases h
  · dsimp only at h
    split at h
    · next hm =>
        split at h
        · next hb =>
            have hi' : Inv { s with alive := false, mapped := false } :=
              ⟨hi.posted, hi.calling, hi.batch, (hk hb hm).imp_right .inr⟩
            obtain ⟨c, hc, h⟩ := bind_eq_ok.mp h
            exact hi'.ran (.connectDestroyed hd hc) h
        · cases h
          refine ⟨hi.posted, hi.calling, hi.batch, .inr (.inr ?_)⟩
          exact covered_of_mem (f := .connectDestroyed) (by simp [queueInLoop]) rfl
    · next hm =>
        cases h
        exact ⟨hi.posted, hi.calling, hi.batch,
          hi.owned.imp_right fun h => .inr (h.resolve_left hm)⟩

theorem Inv.runWork {s t : SharedConn Tid} (hi : s.Inv) {e : WorkInput} {f : ConnWork}
    (he : (e.up ++ e.user ++ e.down ++ e.close).all Call.fromLoop = true)
    (h : s.runWork e f = .ok t) : t.Inv := by
  simp only [List.all_append, Bool.and_eq_true] at he
  obtain ⟨⟨⟨hup, huser⟩, hdown⟩, hclose⟩ := he
  cases f with
  | connectEstablished =>
      obtain ⟨c, hc, h⟩ := bind_eq_ok.mp h
      exact hi.ran (.connectEstablished hup hc) h
  | connectDestroyed =>
      obtain ⟨c, hc, h⟩ := bind_eq_ok.mp h
      exact hi.ran (.connectDestroyed hdown hc) h
  | connFunctor g =>
      simp only [SharedConn.runWork] at h
      split at h
      · cases h
      · obtain ⟨c, hc, h⟩ := bind_eq_ok.mp h
        exact hi.ran (.runFunctor huser hdown hclose hc) h

theorem newConnection_inv {conn : TcpConnection} (hp : conn.posted = []) {onBaseLoop : Bool}
    {up : List Call} (hup : up.all Call.fromLoop = true) {s : SharedConn Tid}
    (h : newConnection conn onBaseLoop up = .ok s) : s.Inv := by
  unfold newConnection at h
  have hi : Inv (⟨conn, onBaseLoop, true, true, [], fun _ => none, [], false, [], [], 0, 0⟩ :
      SharedConn Tid) := ⟨hp, fun t h => absurd rfl h, fun _ => rfl, .inr (.inl rfl)⟩
  split at h
  · obtain ⟨c, hc, h⟩ := bind_eq_ok.mp h
    exact hi.ran (.connectEstablished hup hc) h
  · cases h
    exact ⟨hp, hi.calling, hi.batch, .inr (.inl rfl)⟩

/-! ## One step -/

variable [DecidableEq Tid]

theorem step_inv {s t : SharedConn Tid} {a : SharedAction Tid} (hi : s.Inv)
    (hg : s.guard a = true) (hk : s.keepsOwner a = true) (h : exec a s = .ok t) : t.Inv := by
  cases a with
  | take u =>
      cases h
      refine ⟨hi.posted, fun v hv => List.mem_append_left _ (hi.calling v hv), hi.batch, ?_⟩
      exact .inl (by simp)
  | drop u =>
      cases h
      simp only [guard, Bool.and_eq_true, Option.isNone_iff_eq_none] at hg
      refine ⟨hi.posted, fun v hv => ?_, hi.batch, ?_⟩
      · have hne : v ≠ u := by
          rintro rfl
          exact hv hg.2
        exact (List.mem_erase_of_ne hne).mpr (hi.calling v hv)
      · simp only [keepsOwner, Bool.or_eq_true, Bool.not_eq_true',
          List.isEmpty_eq_false_iff] at hk
        exact or_assoc.mp hk
  | call u k =>
      obtain ⟨c, hc, h⟩ := bind_eq_ok.mp h
      cases h
      simp only [guard, Bool.and_eq_true, List.contains_iff_mem] at hg
      refine ⟨rfl, fun v hv => ?_, hi.batch, hi.owned⟩
      by_cases hvu : v = u
      · exact hvu ▸ hg.1.1
      · exact hi.calling v fun h => hv ((if_neg hvu).trans h)
  | push u =>
      cases h
      have hu : u ∈ s.handles := hi.calling u (Option.isSome_iff_ne_none.mp hg)
      refine ⟨hi.posted, fun v hv => ?_, hi.batch, .inl (List.ne_nil_of_mem hu)⟩
      by_cases hvu : v = u
      · exact hvu ▸ hu
      · exact hi.calling v fun h => hv ((if_neg hvu).trans h)
  | handleEvent e revents receiveTime =>
      simp only [guard, Bool.and_eq_true, List.all_append] at hg
      obtain ⟨c, hc, h⟩ := bind_eq_ok.mp h
      exact hi.ran (.handleEvent hg.2.1.1 hg.2.1.2 hg.2.2 hc) h
  | swap =>
      cases h
      refine ⟨hi.posted, hi.calling, nofun, hi.owned.imp_right (.imp_right fun hc => ?_)⟩
      -- what covered one another in the queue does so in the batch
      obtain ⟨hpend, -⟩ := Bool.and_eq_true_iff.mp hc
      simpa [covered] using hpend
  | runFunctor e =>
      simp only [guard, Bool.and_eq_true] at hg
      simp only [exec] at h
      split at h
      · cases h
        exact hi
      · next f todo htodo =>
          have hrest : Inv { s with todo := todo } := by
            refine ⟨hi.posted, hi.calling, fun hb => ?_,
              hi.owned.imp_right (.imp_right fun hc => ?_)⟩
            · rw [hi.batch hb] at htodo
              cases htodo
            · refine covered_mono hc [] (List.append_nil _).symm nofun rfl ?_
              intro g hg
              rw [htodo]
              exact List.mem_cons_of_mem f hg
          exact hrest.runWork hg.2 h
  | functorsDone =>
      cases h
      simp only [guard, Bool.and_eq_true, List.isEmpty_iff] at hg
      refine ⟨hi.posted, hi.calling, fun _ => hg.2, hi.owned.imp_right (.imp_right fun hc => ?_)⟩
      obtain ⟨hpend, -⟩ := Bool.and_eq_true_iff.mp hc
      simp only [covered, hpend, hg.2, List.all_nil, Bool.true_or, Bool.and_self]
  | removeConnectionInLoop =>
      have hi' : Inv { s with removing := s.removing - 1, removed := s.removed + 1 } :=
        ⟨hi.posted, hi.calling, hi.batch, hi.owned⟩
      exact hi'.removeConnectionInLoop h
  | baseFunctorsDone =>
      cases h
      exact ⟨hi.posted, hi.calling, hi.batch, hi.owned⟩
  | destroyServer down =>
      refine hi.destroyServer hg (fun hb hm => ?_) h
      simpa [keepsOwner, hb, hm] using hk

/-- Over every run in which the last handle is dropped and the server is
destroyed as the condition says, a functor bound to `this` finds its connection
owned when its turn comes, and does not follow a dangling pointer. -/
theorem raw_functors_find_owner {ioLoop : Nat} {connName : String} {wcc hwmc : Bool}
    {onBaseLoop : Bool} {up : List Call} (hup : up.all Call.fromLoop = true)
    {s₀ s : SharedConn Tid}
    (hs : newConnection (TcpConnection.new ioLoop connName wcc hwmc) onBaseLoop up = .ok s₀)
    (hr : (machine.restrict keepsOwner).Reaches s₀ s) {f : ConnFunctor} {todo : List ConnWork}
    (hf : s.todo = .connFunctor f :: todo) (hraw : f.isRaw = true) : s.owners ≠ [] := by
  have hi : s.Inv := by
    refine hr.invariant (I := Inv) (newConnection_inv rfl hup hs) fun hi hg he => ?_
    obtain ⟨hg, hk⟩ := Bool.and_eq_true_iff.mp hg
    exact step_inv hi hg hk he
  exact hi.owners_ne_nil (f := .connFunctor f) (by rw [hf]; exact List.mem_cons_self) hraw

def quietWork : WorkInput := ⟨.wrote 0, [], [], [], []⟩

/-- A connection comes up on a loop of its own. -/
def comesUp : List (SharedAction Nat) := [.swap, .runFunctor quietWork, .functorsDone]

/-- A thread sends and drops its handle while the connection is in the map. -/
def sendAndDrop : List (SharedAction Nat) :=
  [.take 1, .call 1 (.send false [7] (.wrote 0)), .push 1, .drop 1]

theorem raw_functors_find_owner_sendAndDrop :
    ∃ s₀ s : SharedConn Nat,
      newConnection (TcpConnection.new 1 "server-a#1" false false) false [] = .ok s₀ ∧
      (machine.restrict keepsOwner).run (comesUp ++ sendAndDrop ++ [.swap]) s₀ = some s ∧
      s.todo = [.connFunctor (.sendInLoop [7])] ∧ s.owners ≠ [] := by
  obtain ⟨s₀, s, hs₀, hr, htodo⟩ : ∃ s₀ s : SharedConn Nat,
      newConnection (TcpConnection.new 1 "server-a#1" false false) false [] = .ok s₀ ∧
      (machine.restrict keepsOwner).run (comesUp ++ sendAndDrop ++ [.swap]) s₀ = some s ∧
      s.todo = [.connFunctor (.sendInLoop [7])] := ⟨_, _, rfl, rfl, rfl⟩
  exact ⟨s₀, s, hs₀, hr, htodo, raw_functors_find_owner rfl hs₀ ⟨_, hr⟩ htodo rfl⟩

/-- A connection is closed and removed, and a thread starts reading on it when
the batch with its `connectDestroyed` has been swapped out. And a connection on
the base loop is destroyed with its server, while a message of a thread is in
the queue. Both threads drop their handles. -/
theorem ownerless_functor :
    (∃ s₀ s : SharedConn Nat,
      newConnection (TcpConnection.new 1 "server-a#1" false false) false [] = .ok s₀ ∧
      machine.run (comesUp ++ [.take 1, .handleEvent ⟨.eof, .wrote 0, [], [], []⟩ POLLIN 5,
        .removeConnectionInLoop, .baseFunctorsDone, .swap, .call 1 (.startRead false), .push 1,
        .drop 1, .runFunctor quietWork, .functorsDone, .swap]) s₀ = some s ∧
      s.todo = [.connFunctor .startReadInLoop] ∧ s.owners = []) ∧
    ∃ s₀ s : SharedConn Nat,
      newConnection (TcpConnection.new 0 "server-a#1" false false) true [] = .ok s₀ ∧
      machine.run (sendAndDrop ++ [.destroyServer [], .swap]) s₀ = some s ∧
      s.todo = [.connFunctor (.sendInLoop [7])] ∧ s.owners = [] :=
  ⟨⟨_, _, rfl, rfl, rfl, rfl⟩, _, _, rfl, rfl, rfl, rfl⟩

end SharedConn

end Libanet.Net
