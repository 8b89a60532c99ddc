import Dots.Space.Replication

/-!
# Membership in a space

* `Enrolled`: a guest is, after the member messages on their way to the host, in the groups that
  it has joined, but for those that it remembers from an earlier connection. **`enrolled_step`**.
* **`membership_of_run`**: when the host's group table has what the guest has joined.
* `JoinsOnly`: the guests open one connection each and leave no group.
* `Fresh`: in such a run a guest that has not joined yet holds nothing. **`fresh_step`**.
* **`replication_of_joins`**: all guests that have joined have what the host has.
-/

set_option autoImplicit false
set_option linter.unusedSectionVars false

namespace Dots

open Replica

variable {S : Schema} {V : Type} [Ord V] [Std.TransOrd V] [Std.LawfulEqOrd V]

namespace Space

open HostTransceiver GuestTransceiver

variable {s s' : Space S V} {p q : ℕ} {n : String} {τ : Timepoint}

/-! ## Groups on both sides -/

/-- The groups of a guest after the member messages on their way to the host. -/
def EnrolledAt (peer : Peer S V) (h : HostTransceiver S V) : Prop :=
  peer.guest.hostConnection ≠ none → h.isOpen peer.id = true → ∀ n,
    (memberAfter n peer.toHost (decide (peer.id ∈ h.groups n)) = true ↔
      n ∈ peer.guest.joinedGroups ∧ n ∉ peer.remembered)

structure Enrolled (s : Space S V) : Prop where
  remembered : ∀ p, (s.peers p).remembered ⊆ (s.peers p).guest.joinedGroups
  members : ∀ p, EnrolledAt (s.peers p) s.host

/-- The host has its turn, and the guest stays in its groups. -/
theorem EnrolledAt.tracks {peer : Peer S V} {h h' : HostTransceiver S V} (he : EnrolledAt peer h)
    (ht : peer.guest.hostConnection ≠ none → ∀ n, Tracks n peer.id h h') : EnrolledAt peer h' := by
  intro hconn hopen n
  have htn := ht hconn n
  rw [← he hconn (htn.isOpen ▸ hopen) n, decide_eq_decide.mpr htn.member]

/-- A guest has its turn; the host has the others in the same groups. -/
theorem Enrolled.setPeer (he : s.Enrolled) {h : HostTransceiver S V} {peer : Peer S V}
    (hother : ∀ q, q ≠ p → (s.peers q).guest.hostConnection ≠ none → ∀ n,
      Tracks n (s.peers q).id s.host h)
    (hrem : peer.remembered ⊆ peer.guest.joinedGroups) (hself : EnrolledAt peer h) :
    (({ s with host := h } : Space S V).setPeer p peer).Enrolled where
  remembered q := by
    by_cases hq : q = p
    · subst hq
      rwa [setPeer_self]
    · rw [setPeer_of_ne _ hq]
      exact he.remembered q
  members q := by
    by_cases hq : q = p
    · subst hq
      rwa [setPeer_self]
    · rw [setPeer_of_ne _ hq]
      exact (he.members q).tracks (hother q hq)

/-- The groups after a turn that announces what it adds and takes away. -/
theorem EnrolledAt.announces {peer : Peer S V} {h h' : HostTransceiver S V} {r : GuestTurn S V}
    (he : EnrolledAt peer h) (hrem : peer.remembered ⊆ peer.guest.joinedGroups)
    (hr : Announces peer.guest r)
    (hconn : r.guest.hostConnection ≠ none → peer.guest.hostConnection ≠ none)
    (hopen : h'.isOpen = h.isOpen) (hgroups : h'.groups = h.groups)
    (filled : Option (ContainerPool S V)) :
    EnrolledAt { peer with
      guest := r.guest
      toHost := peer.toHost ++ r.sent
      remembered := (peer.remembered ∩ r.guest.joinedGroups) \ ∅
      filled } h' := by
  intro hc ho n
  rw [hopen] at ho
  have hold := he (hconn hc) ho n
  dsimp only
  rw [hgroups, memberAfter_append, hr hc n _ fun hb => (hold.mp hb).1, hold]
  simp only [Finset.sdiff_empty, Finset.mem_inter, not_and]
  constructor
  · rintro ⟨hj, h⟩
    exact ⟨hj, fun hm => absurd hm (h (hrem hm)).2⟩
  · rintro ⟨hj, h⟩
    exact ⟨hj, fun hjold => ⟨hjold, fun hm => h hm hj⟩⟩

/-- A call of the application of a guest. -/
theorem Enrolled.take (he : s.Enrolled) {r : GuestTurn S V}
    (hl : Local (s.peers p).guest r) (hr : Announces (s.peers p).guest r) :
    (s.take p r).Enrolled := by
  refine he.setPeer (h := s.host) (fun q _ _ n => .refl n _ _) ?_
    ((he.members p).announces (he.remembered p) hr (fun hconn hnone => ?_) rfl rfl _)
  · rw [Finset.sdiff_empty]
    exact Finset.inter_subset_right
  · exact hconn (hl.hostConnection.elim (·.trans hnone) id)

/-- A join for a group that the guest has joined already. -/
theorem Enrolled.again (he : s.Enrolled) {name : String}
    (hname : name ∈ (s.peers p).guest.joinedGroups) :
    (s.take p ((s.peers p).guest.publishMember τ name .join none) {name}).Enrolled := by
  obtain ⟨hj, hsent⟩ := transmit_spec (g := (s.peers p).guest) (τ := τ)
    (memberTransmission name .join τ) none
  unfold publishMember
  generalize (s.peers p).guest.transmit τ (memberTransmission name .join τ) none = r at hj hsent
  refine he.setPeer (h := s.host) (fun q _ _ n => .refl n _ _)
    (Finset.sdiff_subset.trans Finset.inter_subset_right) fun hc ho n => ?_
  have hr := hsent hc
  subst hr
  have hold := he.members p hc ho n
  dsimp only
  rw [memberAfter_append]
  simp only [memberAfter, List.foldl_cons, List.foldl_nil, memberEvent_wire,
    memberEvent_memberTransmission] at hold ⊢
  by_cases hn : n = name
  · subst hn
    simp [hname]
  · simp only [hn, if_false, hold, Finset.mem_sdiff, Finset.mem_inter, Finset.mem_singleton,
      not_false_eq_true, and_true, not_and]
    exact and_congr_right fun h => ⟨fun hnot hm => absurd hm hnot, fun h' hm => h' hm h⟩

/-- **A transmission arrives at the host.** -/
theorem EnrolledAt.hostReceive (hi : s.Inv) {t : Transmission S V} {rest : List (Transmission S V)}
    (hw : t.wire = t) (he : EnrolledAt (s.peers p) s.host) (hto : (s.peers p).toHost = t :: rest)
    (snapshot : Option (ContainerPool S V)) :
    EnrolledAt { s.peers p with toHost := rest, snapshot }
      (s.host.receive (s.peers p).id τ t) := by
  intro hc ho n
  dsimp only at hc ho ⊢
  rcases receive_cases (τ := τ) hi.sound hi.receiving hw with ⟨hcl, hsame⟩ | hg | ⟨hopen, ha⟩
  · rw [hsame, hcl] at ho
    cases ho
  · rw [hg.1] at ho
    cases ho
  · rw [← he hc hopen n, hto]
    change _ ↔ memberAfter n rest (memberAfter n [t] _) = true
    have hstep : decide ((s.peers p).id ∈ (s.host.receive (s.peers p).id τ t).groups n) =
        memberAfter n [t] (decide ((s.peers p).id ∈ s.host.groups n)) := by
      have han := ha n
      unfold Answers at han
      simp only [memberAfter, List.foldl_cons, List.foldl_nil]
      rcases hev : t.memberEvent n with _ | _ | _ | _ <;> rw [hev] at han
      · exact decide_eq_decide.mpr han.member
      · exact decide_eq_true han.member
      · exact decide_eq_false han.member
      · exact decide_eq_decide.mpr han.member
    rw [hstep]

/-- **Step lemma.** -/
theorem enrolled_step (hi : s.Inv) (he : s.Enrolled) {a : SpaceAct S V} (h : s.step a = some s') :
    s'.Enrolled := by
  cases a with
  | open_ p pp ps am τ =>
    simp only [step] at h
    split at h
    · cases h
    rename_i hnone
    obtain rfl := Option.some.inj h
    obtain ⟨-, -, -, htracks, -, hnot, -⟩ := accept_spec (τ := τ) hi.sound am
    obtain ⟨c, hg, -, -, -, hsent⟩ := open_guest (τ := τ) hnone pp ps
    refine he.setPeer (fun q _ _ n => htracks n _ (ne_of_lt (hi.lt q))) ?_ fun _ _ n => ?_
    · rw [hg]
    · simp [hsent, hg, memberAfter, hnot n]
  | publish p x failure τ =>
    obtain rfl := Option.some.inj h
    exact he.take (local_transmit _ _) (announces_publish x failure)
  | joinGroup p name failure τ =>
    obtain rfl := Option.some.inj h
    exact he.take (local_joinGroup _ _) (announces_joinGroup name failure)
  | leaveGroup p name failure τ =>
    obtain rfl := Option.some.inj h
    exact he.take (local_leaveGroup _ _) (announces_leaveGroup name failure)
  | joinAgain p name τ =>
    simp only [step] at h
    split_ifs at h with hname
    obtain rfl := Option.some.inj h
    exact he.again hname
  | hostReceive p τ =>
    simp only [step] at h
    split at h
    · cases h
    rename_i t rest hto
    obtain rfl := Option.some.inj h
    have hw : t.wire = t := hi.wire p t (by rw [hto]; exact List.mem_cons_self)
    exact he.setPeer (fun q hq hconn n => tracks_receive hi.sound hw (hi.ne_of_open hq hconn))
      (he.remembered p) ((he.members p).hostReceive hi hw hto _)
  | guestReceive p τ =>
    simp only [step] at h
    split at h
    swap
    · cases h
    rename_i c t rest hc hout
    obtain rfl := Option.some.inj h
    refine he.setPeer (fun q hq hconn n => ?_) ?_ ((he.members p).announces (he.remembered p)
      (announces_receive t) (fun _ => ?_) rfl rfl _)
    · exact tracks_of_eq rfl Iff.rfl rfl (Function.update_of_ne (hi.ne_of_open hq hconn) ..)
    · rw [Finset.sdiff_empty]
      exact Finset.inter_subset_right
    · rw [hc]
      exact Option.some_ne_none c
  | hostError id what τ =>
    obtain rfl := Option.some.inj h
    refine ⟨he.remembered, fun p hc ho n => ?_⟩
    by_cases hid : (s.peers p).id = id
    · rw [hid, closed_channelError] at ho
      cases ho
    · exact (he.members p).tracks (fun _ _ => tracks_channelError hid what) hc ho n
  | guestError p what τ =>
    obtain rfl := Option.some.inj h
    exact he.take (local_channelError what) (announces_channelError what)

theorem Initial.enrolled (h : s.Initial) : s.Enrolled where
  remembered p := by
    rw [h.remembered p]
    exact Finset.empty_subset _
  members p hc := absurd (h.hostConnection p) hc

/-- **Group membership across reconnects.** The host's group table has the connection of a settled
guest in every group that the guest has joined, if and only if the guest remembers none of them
from an earlier connection. -/
theorem membership_of_run {l : List (SpaceAct S V)} (h0 : s.Initial) (hrun : Lts.Run Step s l s')
    (hsettled : s'.Settled p) (hconn : (s'.peers p).guest.hostConnection ≠ none) :
    (∀ n ∈ (s'.peers p).guest.joinedGroups, (s'.peers p).id ∈ s'.host.groups n) ↔
      (s'.peers p).remembered = ∅ := by
  have he := (hrun.invariant (I := fun s : Space S V => s.Inv ∧ s.Enrolled)
    (fun _ _ _ hI hstep => ⟨inv_step hI.1 hstep, enrolled_step hI.1 hI.2 hstep⟩)
    ⟨h0.inv, h0.enrolled⟩).2
  have hmem (n : String) : (s'.peers p).id ∈ s'.host.groups n ↔
      n ∈ (s'.peers p).guest.joinedGroups ∧ n ∉ (s'.peers p).remembered := by
    have h := he.members p hconn hsettled.isOpen n
    rw [hsettled.toHost] at h
    simpa [memberAfter] using h
  constructor
  · refine fun hall => Finset.eq_empty_of_forall_notMem fun n hn => ?_
    exact ((hmem n).mp (hall n (he.remembered p hn))).2 hn
  · intro hrem n hn
    rw [hmem, hrem]
    exact ⟨hn, Finset.notMem_empty n⟩

/-! ## A reconnect -/

/-- Guest 0 joins a group, and again when its connection has been lost and is back. -/
def reconnect : List (SpaceAct testSchema ℕ) :=
  connecting 0 ++ joining 0 ++
    [.guestReceive 0 0, .guestError 0 "connection reset" 0, .hostError 2 "connection reset" 0] ++
    connecting 0 ++ [.joinGroup 0 "DotsTestStruct" none 0]

/-- **A membership is lost** in a reconnect. -/
theorem membership_lost :
    ∃ s, Lts.Run Step testSpace reconnect s ∧ s.Settled 0 ∧ (s.peers 0).guest.connected = true ∧
      "DotsTestStruct" ∈ (s.peers 0).guest.joinedGroups ∧
      (s.peers 0).id ∉ s.host.groups "DotsTestStruct" := by
  have h : (Lts.exec step testSpace reconnect).any (fun s =>
      s.isSettled 0 && (s.peers 0).guest.connected &&
        decide ("DotsTestStruct" ∈ (s.peers 0).guest.joinedGroups) &&
        decide ((s.peers 0).id ∉ s.host.groups "DotsTestStruct")) = true := by
    decide +kernel
  obtain ⟨s, hs, hc⟩ := (Option.any_eq_true ..).mp h
  simp only [Bool.and_eq_true, decide_eq_true_eq] at hc
  obtain ⟨⟨⟨hsettled, hconn⟩, hjoined⟩, hmem⟩ := hc
  exact ⟨s, Lts.run_of_exec hs, settled_of_isSettled s hsettled, hconn, hjoined, hmem⟩

/-- Guest 0 leaves the group on its second connection, and joins it. -/
def recovery : List (SpaceAct testSchema ℕ) :=
  reconnect ++ leaving 0 ++ joining 0 ++ [.guestReceive 0 0]

theorem membership_of_run_recovery :
    ∃ s, Lts.Run Step testSpace recovery s ∧
      ((∀ n ∈ (s.peers 0).guest.joinedGroups, (s.peers 0).id ∈ s.host.groups n) ↔
        (s.peers 0).remembered = ∅) := by
  have h : (Lts.exec step testSpace recovery).any (fun s =>
      s.isSettled 0 && (s.peers 0).guest.connected) = true := by
    decide +kernel
  obtain ⟨s, hs, hc⟩ := (Option.any_eq_true ..).mp h
  simp only [Bool.and_eq_true] at hc
  have hrun : Lts.Run Step testSpace recovery s := Lts.run_of_exec hs
  exact ⟨s, hrun, membership_of_run testSpace_initial hrun (settled_of_isSettled s hc.1)
    (hostConnection_of_connected hc.2)⟩

/-! ## Guests that leave no group -/

/-- A guest opens one connection, and leaves no group. -/
def JoinsOnly (s : Space S V) : SpaceAct S V → Prop
  | .open_ p .. => (s.peers p).id = uninitializedId
  | .leaveGroup .. => False
  | _ => True

/-- A guest that has not joined a group holds nothing of its type, nor will it. -/
structure Fresh (s : Space S V) : Prop where
  unopened : ∀ p, (s.peers p).id = uninitializedId →
    (s.peers p).guest.joinedGroups = ∅ ∧
      ∀ n, (S.descriptor n).cached = true → ((s.peers p).guest.pool n).view = fun _ => none
  unassigned : ∀ c, s.host.nextGuestId ≤ c → ∀ n, (S.descriptor n).cached = true →
    operations n (s.host.outbox c) = []
  unjoined : ∀ p n, (S.descriptor n).cached = true → (s.peers p).guest.hostConnection ≠ none →
    s.host.isOpen (s.peers p).id = true → (s.peers p).id ∉ s.host.groups n →
    arriving (s.peers p).guest.pool s.host (s.peers p).id n = fun _ => none
  remains : ∀ p n, ∀ t ∈ (s.peers p).toHost, t.memberEvent n ≠ some .leave
  remembered : ∀ p, (s.peers p).remembered = ∅

/-- What is on its way to a guest that is no member. -/
theorem arriving_tracks {pool : ContainerPool S V} {h h' : HostTransceiver S V} {c : ConnectionId}
    (ht : Tracks n c h h') (hn : (S.descriptor n).cached = true) (hc : c ∉ h.groups n) :
    arriving pool h' c n = arriving pool h c n := by
  obtain ⟨ts, hout, -, hv⟩ := ht.sent
  rw [arriving, hout, operations_append, (hv hn).2 hc, List.append_nil]
  rfl

/-- The joins of such a run are fresh. -/
theorem Fresh.joinsFresh (hf : s.Fresh) (hs : s.Synced) (a : SpaceAct S V) : s.JoinsFresh a := by
  cases a with
  | hostReceive p τ =>
    intro t _ hconn hopen n hn _
    by_cases hmem : (s.peers p).id ∈ s.host.groups n
    · rw [hs p n hconn hn hopen hmem]
      exact not_stale_view _
    · rw [hf.unjoined p n hn hconn hopen hmem]
      exact not_stale_empty _
  | _ => trivial

/-- A guest has its turn, then the host. -/
theorem Fresh.setPeer (hf : s.Fresh) (hi : s.Inv) {h : HostTransceiver S V} {peer : Peer S V}
    (hnext : s.host.nextGuestId ≤ h.nextGuestId)
    (hassigned : ∀ c, h.nextGuestId ≤ c → ∀ n, Tracks n c s.host h)
    (hother : ∀ q, q ≠ p → (s.peers q).guest.hostConnection ≠ none → ∀ n,
      Tracks n (s.peers q).id s.host h)
    (hunopened : peer.id = uninitializedId → peer.guest.joinedGroups = ∅ ∧
      ∀ n, (S.descriptor n).cached = true → (peer.guest.pool n).view = fun _ => none)
    (hunjoined : ∀ n, (S.descriptor n).cached = true → peer.guest.hostConnection ≠ none →
      h.isOpen peer.id = true → peer.id ∉ h.groups n →
      arriving peer.guest.pool h peer.id n = fun _ => none)
    (hremains : ∀ n, ∀ t ∈ peer.toHost, t.memberEvent n ≠ some .leave)
    (hrem : peer.remembered = ∅) :
    (({ s with host := h } : Space S V).setPeer p peer).Fresh := by
  refine ⟨fun q => ?_, fun c hc n hn => ?_, fun q => ?_, fun q => ?_, fun q => ?_⟩
  · by_cases hq : q = p
    · subst hq
      rwa [setPeer_self]
    · rw [setPeer_of_ne _ hq]
      exact hf.unopened q
  · obtain ⟨ts, hout, -, hv⟩ := (hassigned c hc n).sent
    change operations n (h.outbox c) = []
    rw [hout, operations_append, hf.unassigned c (hnext.trans hc) n hn,
      (hv hn).2 ((hi.sound.absent c (hnext.trans hc)).2.1 n)]
    rfl
  · by_cases hq : q = p
    · subst hq
      rwa [setPeer_self]
    · rw [setPeer_of_ne _ hq]
      intro n hn hconn hopen hmem
      have ht := hother q hq hconn n
      have hmem' : (s.peers q).id ∉ s.host.groups n := fun hm => hmem (ht.member.mpr hm)
      exact (arriving_tracks ht hn hmem').trans
        (hf.unjoined q n hn hconn (ht.isOpen.symm.trans hopen) hmem')
  · by_cases hq : q = p
    · subst hq
      rwa [setPeer_self]
    · rw [setPeer_of_ne _ hq]
      exact hf.remains q
  · by_cases hq : q = p
    · subst hq
      rwa [setPeer_self]
    · rw [setPeer_of_ne _ hq]
      exact hf.remembered q

/-- A call of the application of a guest. -/
theorem Fresh.take (hf : s.Fresh) (hi : s.Inv) {r : GuestTurn S V} {again : Finset String}
    (hl : Local (s.peers p).guest r)
    (hsent : ∀ n, ∀ t ∈ r.sent, t.memberEvent n ≠ some .leave) : (s.take p r again).Fresh := by
  refine hf.setPeer hi (h := s.host) le_rfl (fun c _ n => .refl n c _) (fun q _ _ n => .refl n _ _)
    (fun hid => ?_) (fun n hn hconn hopen hmem => ?_) (fun n t ht => ?_) ?_
  · obtain ⟨hj, hpool⟩ := hf.unopened p hid
    refine ⟨(hl.closed (hi.unopened p hid).1).2.trans hj, fun n hn => ?_⟩
    rw [hl.pool]
    exact hpool n hn
  · rw [hl.pool]
    exact hf.unjoined p n hn (fun hnone => hconn (hl.hostConnection.elim (·.trans hnone) id)) hopen
      hmem
  · exact (List.mem_append.mp ht).elim (hf.remains p n t) (hsent n t)
  · rw [hf.remembered p, Finset.empty_inter, Finset.empty_sdiff]

/-- **Step lemma.** -/
theorem fresh_step (hi : s.Inv) (hf : s.Fresh) {a : SpaceAct S V}
    (h : s.step a = some s') (ha : s.JoinsOnly a) : s'.Fresh := by
  cases a with
  | open_ p pp ps am τ =>
    simp only [step] at h
    split at h
    · cases h
    rename_i hnone
    obtain rfl := Option.some.inj h
    obtain ⟨hnext, -, -, htracks, -, hnot, us, hout, -, hops⟩ :=
      accept_spec (τ := τ) hi.sound am
    obtain ⟨c, hg, -, -, -, hsent⟩ := open_guest (τ := τ) hnone pp ps
    obtain ⟨hj, hpool⟩ := hf.unopened p ha
    refine hf.setPeer hi (by rw [hnext]; exact Nat.le_succ _) (fun c hc n => ?_)
      (fun q _ _ n => htracks n _ (ne_of_lt (hi.lt q))) (fun hid => ?_)
      (fun n hn _ _ _ => ?_) (fun n t ht => ?_) hj
    · rw [hnext] at hc
      exact htracks n c (ne_of_gt hc)
    · rw [hg]
      exact ⟨hj, hpool⟩
    · rw [arriving, hout, operations_append, hops n hn, hf.unassigned _ le_rfl n hn, hg]
      exact hpool n hn
    · rw [hsent] at ht
      exact absurd ht List.not_mem_nil
  | publish p x failure τ =>
    obtain rfl := Option.some.inj h
    exact hf.take hi (local_transmit _ _) fun n => memberEvent_transmit
      (show Transmission.memberEvent n (x.guestTransmission τ) ≠ some .leave from fun h => by cases h) _
  | joinGroup p name failure τ =>
    obtain rfl := Option.some.inj h
    exact hf.take hi (local_joinGroup _ _) fun n => memberEvent_joinGroup name failure
  | leaveGroup p name failure τ => exact ha.elim
  | joinAgain p name τ =>
    simp only [step] at h
    split_ifs at h
    obtain rfl := Option.some.inj h
    refine hf.take hi (local_transmit _ _) fun n => memberEvent_transmit ?_ _
    rw [memberEvent_memberTransmission]
    split_ifs <;> simp
  | hostReceive p τ =>
    simp only [step] at h
    split at h
    · cases h
    rename_i t rest hto
    obtain rfl := Option.some.inj h
    have hw : t.wire = t := hi.wire p t (by rw [hto]; exact List.mem_cons_self)
    have hnext := (stocked_receive (τ := τ) (s.peers p).id hi.sound hw hi.stocked).2.1
    refine hf.setPeer hi hnext.ge (fun c hc n => ?_)
      (fun q hq hconn n => tracks_receive hi.sound hw (hi.ne_of_open hq hconn)) (hf.unopened p)
      (fun n hn hconn hopen hmem => ?_) (fun n u hu => ?_) (hf.remembered p)
    · rw [hnext] at hc
      exact tracks_receive hi.sound hw (ne_of_gt (lt_of_lt_of_le (hi.lt p) hc))
    · dsimp only at hconn hopen hmem ⊢
      rcases receive_cases (τ := τ) hi.sound hi.receiving hw with ⟨hcl, he⟩ | hg | ⟨hold, han⟩
      · rw [he, hcl] at hopen
        cases hopen
      · rw [hg.1] at hopen
        cases hopen
      · have hn' := han n
        unfold Answers at hn'
        split at hn'
        · exact absurd hn'.member hmem
        · rename_i hev
          exact absurd hev (hf.remains p n t (by rw [hto]; exact List.mem_cons_self))
        · have hmem' : (s.peers p).id ∉ s.host.groups n := fun hm => hmem (hn'.member.mpr hm)
          exact (arriving_tracks hn' hn hmem').trans (hf.unjoined p n hn hconn hold hmem')
    · exact hf.remains p n u (by rw [hto]; exact List.mem_cons_of_mem _ hu)
  | guestReceive p τ =>
    simp only [step] at h
    split at h
    swap
    · cases h
    rename_i c t rest hc hout
    obtain rfl := Option.some.inj h
    have hold : (s.peers p).guest.hostConnection ≠ none := by
      rw [hc]
      exact Option.some_ne_none c
    refine hf.setPeer hi le_rfl (fun c' hc' n => ?_) (fun q hq hconn n => ?_) (fun hid => ?_)
      (fun n hn hconn hopen hmem => ?_) (fun n u hu => ?_) ?_
    · exact tracks_of_eq rfl Iff.rfl rfl
        (Function.update_of_ne (ne_of_gt (lt_of_lt_of_le (hi.lt p) hc')) ..)
    · exact tracks_of_eq rfl Iff.rfl rfl (Function.update_of_ne (hi.ne_of_open hq hconn) ..)
    · exact absurd (hi.unopened p hid).1 hold
    · have hopen' : s.host.isOpen (s.peers p).id = true := hopen
      have hmarked := hi.marked _ (.inl hopen') t (by rw [hout]; exact List.mem_cons_self)
      have hview := receive_view (hi.live p hopen') hmarked hc hn hconn
      have hun := hf.unjoined p n hn hold hopen' hmem
      rw [arriving, hout, show t :: rest = [t] ++ rest from rfl, operations_append, drain_append,
        ← hview] at hun
      simpa [arriving, Function.update_self] using hun
    · refine (List.mem_append.mp hu).elim (hf.remains p n u) fun hu => ?_
      rcases (memberEvent_receive (g := (s.peers p).guest) (τ := τ) t hc).1 u hu with h | h <;>
        rw [h] <;> simp
    · rw [hf.remembered p, Finset.empty_inter, Finset.empty_sdiff]
  | hostError id what τ =>
    obtain rfl := Option.some.inj h
    have hnext := (admits_channelError (h := s.host) (τ := τ) id what).nextGuestId
    refine ⟨hf.unopened, fun c hc n hn => ?_, fun p n hn hconn hopen hmem => ?_, hf.remains,
      hf.remembered⟩
    · have hc' : s.host.nextGuestId ≤ c := hnext ▸ hc
      dsimp only
      by_cases hid : c = id
      · rw [hid, channelError_of_absent (hi.sound.absent id (hid ▸ hc')).1]
        exact hf.unassigned id (hid ▸ hc') n hn
      · obtain ⟨ts, hout, -, hv⟩ :=
          (tracks_channelError (h := s.host) (n := n) (τ := τ) hid what).sent
        rw [hout, operations_append, hf.unassigned c hc' n hn,
          (hv hn).2 ((hi.sound.absent c hc').2.1 n)]
        rfl
    · dsimp only at hconn hopen hmem ⊢
      by_cases hid : (s.peers p).id = id
      · rw [hid, closed_channelError] at hopen
        cases hopen
      · have ht := tracks_channelError (h := s.host) (n := n) (τ := τ) hid what
        have hmem' : (s.peers p).id ∉ s.host.groups n := fun hm => hmem (ht.member.mpr hm)
        exact (arriving_tracks ht hn hmem').trans
          (hf.unjoined p n hn hconn (ht.isOpen.symm.trans hopen) hmem')
  | guestError p what τ =>
    obtain rfl := Option.some.inj h
    refine hf.take hi (local_channelError what) fun n t ht => ?_
    rw [memberEvent_channelError what t ht]
    simp

theorem Initial.fresh (h : s.Initial) : s.Fresh where
  unopened p _ := ⟨h.joinedGroups p, fun n _ => by rw [h.guestPool p]; rfl⟩
  unassigned c _ n _ := by rw [h.outbox c]; rfl
  unjoined p n _ hconn := absurd (h.hostConnection p) hconn
  remains p n t ht := by rw [h.toHost p] at ht; exact absurd ht List.not_mem_nil
  remembered := h.remembered

/-- **Cache replication.** In every run in which the guests leave no group, every settled guest
that has joined the group of a cached type has what the host has. -/
theorem replication_of_joins {l : List (SpaceAct S V)} (h0 : s.Initial)
    (hrun : Lts.Run (Lts.Guarded Step JoinsOnly) s l s') (hn : (S.descriptor n).cached = true)
    (hsettled : s'.Settled p) (hconn : (s'.peers p).guest.hostConnection ≠ none)
    (hjoined : n ∈ (s'.peers p).guest.joinedGroups) :
    ((s'.peers p).guest.pool n).view = (s'.host.pool n).view := by
  obtain ⟨-, hs, he, hf⟩ := hrun.invariant
    (I := fun s : Space S V => s.Inv ∧ s.Synced ∧ s.Enrolled ∧ s.Fresh)
    (fun s a t ⟨hi, hs, he, hf⟩ hstep => ⟨inv_step hi hstep.1,
      synced_step hi hs hstep.1 (hf.joinsFresh hs a), enrolled_step hi he hstep.1,
      fresh_step hi hf hstep.1 hstep.2⟩)
    ⟨h0.inv, h0.synced, h0.enrolled, h0.fresh⟩
  refine hs.view_eq hn hsettled hconn ?_
  have h := he.members p hconn hsettled.isOpen n
  rw [hsettled.toHost, hf.remembered p] at h
  simpa [memberAfter, hjoined] using h

/-- `JoinsOnly`, computed. -/
def joinsOnly (s : Space testSchema ℕ) : SpaceAct testSchema ℕ → Bool
  | .open_ p .. => (s.peers p).id == uninitializedId
  | .leaveGroup .. => false
  | _ => true

theorem joinsOnly_of_check (s : Space testSchema ℕ) (a : SpaceAct testSchema ℕ)
    (h : joinsOnly s a = true) : s.JoinsOnly a := by
  cases a with
  | open_ p => exact beq_iff_eq.mp h
  | leaveGroup p => cases h
  | _ => trivial

/-- Guest 1 creates and removes instances while guest 0 joins twice. -/
def joinTwice : List (SpaceAct testSchema ℕ) :=
  connecting 0 ++ connecting 1 ++ publishing 1 (testPublish 1 5) ++ joining 0 ++
    publishing 1 (testPublish 2 6) ++ [.joinAgain 0 "DotsTestStruct" 0] ++
    publishing 1 { testPublish 1 5 with remove := true } ++ [.hostReceive 0 0] ++
    List.replicate 6 (.guestReceive 0 0)

theorem replication_of_joins_twice :
    ∃ s, Lts.Run (Lts.Guarded Step JoinsOnly) testSpace joinTwice s ∧
      ((s.peers 0).guest.pool "DotsTestStruct").clones.length = 1 ∧
      ((s.peers 0).guest.pool "DotsTestStruct").view = (s.host.pool "DotsTestStruct").view := by
  have h : (Lts.exec (fun s a => if joinsOnly s a then step s a else none) testSpace
      joinTwice).any (fun s => s.isSettled 0 && (s.peers 0).guest.connected &&
        decide ("DotsTestStruct" ∈ (s.peers 0).guest.joinedGroups) &&
        decide (((s.peers 0).guest.pool "DotsTestStruct").clones.length = 1)) = true := by
    decide +kernel
  obtain ⟨s, hs, hc⟩ := (Option.any_eq_true ..).mp h
  simp only [Bool.and_eq_true, decide_eq_true_eq] at hc
  obtain ⟨⟨⟨hsettled, hconn⟩, hjoined⟩, hlen⟩ := hc
  have hrun := Lts.run_of_exec_guarded joinsOnly_of_check hs
  exact ⟨s, hrun, hlen, replication_of_joins (n := "DotsTestStruct") testSpace_initial hrun
    (by decide) (settled_of_isSettled s hsettled) (hostConnection_of_connected hconn) hjoined⟩

end Space

end Dots
