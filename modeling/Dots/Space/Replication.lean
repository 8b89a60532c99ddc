import Dots.Guest.Turn
import Dots.Space.Model

/-!
# Replication in a space

* `SyncedAt`: a member has, after what is on its way to it, what the host has of a type.
* `Space.Inv`: what holds of host, channels and guests in every run. **`inv_step`**.
* `JoinsFresh`: no join is processed while the guest holds something stale.
* **`synced_step`**, **`replication_of_run`**: the members are synced.
-/

set_option autoImplicit false
set_option linter.unusedSectionVars false

namespace Dots

open Replica

variable {S : Schema} {V : Type} [Ord V] [Std.TransOrd V] [Std.LawfulEqOrd V]

/-! ## One connection -/

namespace HostTransceiver

variable {h h' : HostTransceiver S V} {c : ConnectionId} {n : String} {τ : Timepoint}
variable {pool : ContainerPool S V}

/-- What a guest with the containers `pool` will have when it has received what is on its way. -/
noncomputable def arriving (pool : ContainerPool S V) (h : HostTransceiver S V) (c : ConnectionId)
    (n : String) : Table (List (Option V)) (CloneView V (S.descriptor n)) :=
  drain (pool n).view (operations n (h.outbox c))

/-- A member of the group will have what the host has. -/
def SyncedAt (pool : ContainerPool S V) (h : HostTransceiver S V) (c : ConnectionId)
    (n : String) : Prop :=
  (S.descriptor n).cached = true → h.isOpen c = true → c ∈ h.groups n →
    arriving pool h c n = (h.pool n).view

theorem SyncedAt.tracks (hs : SyncedAt pool h c n) (ht : Tracks n c h h') :
    SyncedAt pool h' c n := by
  intro hn hopen hc
  obtain ⟨ts, hout, -, hv⟩ := ht.sent
  rw [ht.isOpen] at hopen
  rw [ht.member] at hc
  rw [arriving, hout, operations_append, drain_append]
  change drain (arriving pool h c n) _ = _
  rw [hs hn hopen hc, (hv hn).1 hopen hc]

theorem SyncedAt.of_closed (hc : h'.isOpen c = false) : SyncedAt pool h' c n := by
  intro _ hopen
  rw [hc] at hopen
  cases hopen

/-- **A guest joins** that holds nothing stale. -/
theorem SyncedAt.joins (hs : h.Stocked) (hj : Joins τ n c h h')
    (hfresh : (S.descriptor n).cached = true → ¬ Stale (arriving pool h c n) (h.pool n)) :
    SyncedAt pool h' c n := by
  intro hn _ _
  obtain ⟨ts, hout, -, hops⟩ := hj.sent
  rw [arriving, hout, operations_append, drain_append, hj.pool, hops hn]
  change drain (arriving pool h c n) _ = _
  split_ifs with hreg
  · rw [operations_replays fun e he =>
      hs.stamped n e.1.key e (Container.mem_clones.mp he)]
    exact (drain_replayed_iff (keyed_drain (keyed_view _) _)).mpr (hfresh hn)
  · -- nothing is cached of a type that is not registered, so the guest may hold nothing either
    have hnone := hs.registered n (by simpa using hreg)
    funext k
    rw [Container.view, hnone k]
    by_contra hne
    obtain ⟨v, hv⟩ := Option.ne_none_iff_exists'.mp hne
    exact hfresh hn ⟨k, v, hv, fun e he => by rw [hnone k] at he; cases he⟩

end HostTransceiver

/-! ## The invariant of a space -/

namespace Space

open HostTransceiver

variable {s s' : Space S V} {p q : ℕ}

/-- What holds of host, channels and guests. -/
structure Inv (s : Space S V) : Prop where
  sound : s.host.Sound
  receiving : s.host.Receiving
  stocked : s.host.Stocked
  wire : ∀ p, ∀ t ∈ (s.peers p).toHost, t.wire = t
  live : ∀ p, s.host.isOpen (s.peers p).id = true → (s.peers p).guest.Live
  unopened : ∀ p, (s.peers p).id = uninitializedId →
    (s.peers p).guest.hostConnection = none ∧ (s.peers p).toHost = []
  lt : ∀ p, (s.peers p).id < s.host.nextGuestId
  distinct : ∀ p q, p ≠ q → (s.peers p).id = (s.peers q).id → (s.peers p).id = uninitializedId
  marked : ∀ c, s.host.isOpen c = true ∨ s.host.nextGuestId ≤ c →
    ∀ t ∈ s.host.outbox c, t.Marked

/-- What the step of a host does to the outbox of a connection. -/
def Sends (h h' : HostTransceiver S V) (c : ConnectionId) : Prop :=
  h'.isOpen c = true ∨ h'.nextGuestId ≤ c →
    (h.isOpen c = true ∨ h.nextGuestId ≤ c) ∧
      ∃ ts, h'.outbox c = h.outbox c ++ ts ∧ ∀ t ∈ ts, t.Marked

theorem sends_of_tracks {h h' : HostTransceiver S V} {c : ConnectionId} {n : String}
    (ht : Tracks n c h h') (hnext : h.nextGuestId ≤ h'.nextGuestId) : Sends h h' c := fun ho => by
  obtain ⟨ts, hout, hm, -⟩ := ht.sent
  exact ⟨ho.imp (fun hopen => ht.isOpen ▸ hopen) hnext.trans, ts, hout, hm⟩

theorem sends_of_answers {h h' : HostTransceiver S V} {c : ConnectionId} {n : String}
    {t : Transmission S V} {τ : Timepoint} (ha : Answers τ n t c h h')
    (hnext : h.nextGuestId ≤ h'.nextGuestId) : Sends h h' c := fun ho => by
  have hopen := ha.isOpen
  unfold Answers at ha
  split at ha <;>
  · obtain ⟨ts, hout, hm, -⟩ := ha.sent
    exact ⟨ho.imp (fun h => hopen ▸ h) hnext.trans, ts, hout, hm⟩

/-- The host has its turn, the peers are as before. -/
theorem Inv.host (hi : s.Inv) {h : HostTransceiver S V} (hsound : h.Sound) (hr : h.Receiving)
    (hst : h.Stocked) (hnext : s.host.nextGuestId ≤ h.nextGuestId)
    (hsends : ∀ c, Sends s.host h c) : ({ s with host := h } : Space S V).Inv where
  sound := hsound
  receiving := hr
  stocked := hst
  wire := hi.wire
  live p hopen := by
    rcases (hsends _ (.inl hopen)).1 with hopen' | hle
    · exact hi.live p hopen'
    · exact absurd (hi.lt p) (not_lt.mpr hle)
  unopened := hi.unopened
  lt p := lt_of_lt_of_le (hi.lt p) hnext
  distinct := hi.distinct
  marked c hc t ht := by
    obtain ⟨hc', ts, hout, hm⟩ := hsends c hc
    rw [show h.outbox c = _ from hout] at ht
    exact (List.mem_append.mp ht).elim (hi.marked c hc' t) (hm t)

/-- A peer with the same id has its turn. -/
theorem Inv.setPeer (hi : s.Inv) {peer : Peer S V} (hid : peer.id = (s.peers p).id)
    (hw : ∀ t ∈ peer.toHost, t.wire = t)
    (hl : s.host.isOpen peer.id = true → peer.guest.Live)
    (hu : peer.id = uninitializedId → peer.guest.hostConnection = none ∧ peer.toHost = []) :
    (s.setPeer p peer).Inv := by
  have hids (q : ℕ) : ((s.setPeer p peer).peers q).id = (s.peers q).id := by
    by_cases hq : q = p
    · subst hq
      simp [Space.setPeer, hid]
    · simp [Space.setPeer, Function.update_of_ne hq]
  refine ⟨hi.sound, hi.receiving, hi.stocked, fun q => ?_, fun q => ?_, fun q => ?_, fun q => ?_,
    fun q q' hne he => ?_, hi.marked⟩
  · by_cases hq : q = p
    · subst hq
      simpa [Space.setPeer] using hw
    · simpa [Space.setPeer, Function.update_of_ne hq] using hi.wire q
  · by_cases hq : q = p
    · subst hq
      simpa [Space.setPeer] using hl
    · simpa [Space.setPeer, Function.update_of_ne hq] using hi.live q
  · by_cases hq : q = p
    · subst hq
      simpa [Space.setPeer] using hu
    · simpa [Space.setPeer, Function.update_of_ne hq] using hi.unopened q
  · rw [hids]
    exact hi.lt q
  · rw [hids, hids] at he
    rw [hids]
    exact hi.distinct q q' hne he

@[simp] theorem setPeer_self (s : Space S V) (p : ℕ) (peer : Peer S V) :
    (s.setPeer p peer).peers p = peer := Function.update_self ..

@[simp] theorem setPeer_of_ne (s : Space S V) {p q : ℕ} (hq : q ≠ p) (peer : Peer S V) :
    (s.setPeer p peer).peers q = s.peers q := Function.update_of_ne hq ..

@[simp] theorem setPeer_host (s : Space S V) (p : ℕ) (peer : Peer S V) :
    (s.setPeer p peer).host = s.host := rfl

/-- A call of the application of a guest. -/
theorem Inv.take (hi : s.Inv) {r : GuestTurn S V} {again : Finset String}
    (hl : GuestTransceiver.Local (s.peers p).guest r) : (s.take p r again).Inv := by
  refine hi.setPeer rfl (fun t ht => ?_) (fun hopen c hc => ?_) fun hu => ?_
  · exact (List.mem_append.mp ht).elim (hi.wire p t) (hl.wire t)
  · rcases hl.hostConnection with he | he <;> rw [show r.guest.hostConnection = _ from he] at hc
    · exact hi.live p hopen c hc
    · cases hc
  · obtain ⟨hnone, hnil⟩ := hi.unopened p hu
    refine ⟨?_, by simp [hnil, (hl.closed hnone).1]⟩
    rcases hl.hostConnection with he | he
    · exact he.trans hnone
    · exact he

theorem Inv.hostReceive (hi : s.Inv) {t : Transmission S V} (hw : t.wire = t) (τ : Timepoint) :
    ({ s with host := s.host.receive (s.peers p).id τ t } : Space S V).Inv := by
  obtain ⟨-, hnext, hst⟩ := stocked_receive (τ := τ) (s.peers p).id hi.sound hw
    hi.stocked
  refine hi.host (hi.sound.receive t) (hi.receiving.receive t) hst hnext.ge fun c => ?_
  by_cases hc : c = (s.peers p).id
  · subst hc
    rcases receive_cases (τ := τ) hi.sound hi.receiving hw with ⟨-, he⟩ | hg | ⟨-, ha⟩
    · exact fun ho => by
        rw [he] at ho ⊢
        exact ⟨ho, [], by simp, by simp⟩
    · intro ho
      rw [hg.1, hnext] at ho
      rcases ho with ho | ho
      · cases ho
      · exact absurd (hi.lt p) (not_lt.mpr ho)
    · exact sends_of_answers (ha "") hnext.ge
  · exact sends_of_tracks (n := "") (tracks_receive hi.sound hw hc) hnext.ge

theorem Inv.hostError (hi : s.Inv) (id : ConnectionId) (what : String) (τ : Timepoint) :
    ({ s with host := s.host.channelError id τ what } : Space S V).Inv := by
  have ha := admits_channelError (h := s.host) (τ := τ) id what
  refine hi.host (sound_step hi.sound (.channelError id what τ)) (hi.receiving.channelError what)
    (ha.stocked hi.stocked) ha.nextGuestId.ge fun c => ?_
  by_cases hc : c = id
  · subst hc
    intro ho
    rw [closed_channelError, ha.nextGuestId] at ho
    have hle := ho.resolve_left Bool.false_ne_true
    rw [channelError_of_absent (hi.sound.absent c hle).1]
    exact ⟨.inr hle, [], by simp, by simp⟩
  · exact sends_of_tracks (n := "") (tracks_channelError hc what) ha.nextGuestId.ge

theorem Inv.accept (hi : s.Inv) (a : Option AuthManager) (τ : Timepoint) :
    ({ s with host := s.host.accept τ a } : Space S V).Inv := by
  obtain ⟨hnext, hreg, hpool, htracks, -, -, us, hout, hm, -⟩ := accept_spec (τ := τ) hi.sound a
  have hst : (s.host.accept τ a).Stocked :=
    ⟨by rw [hreg, hpool]; exact hi.stocked.registered, by rw [hpool]; exact hi.stocked.stamped⟩
  refine hi.host (hi.sound.accept a) (hi.receiving.accept a) hst
    (by rw [hnext]; exact Nat.le_succ _) fun c => ?_
  by_cases hc : c = s.host.nextGuestId
  · subst hc
    exact fun _ => ⟨.inr le_rfl, us, hout, hm⟩
  · exact sends_of_tracks (n := "") (htracks "" c hc) (by rw [hnext]; exact Nat.le_succ _)

/-- A guest has read the next transmission. -/
theorem Inv.pop (hi : s.Inv) {c : ConnectionId} {t : Transmission S V}
    {rest : List (Transmission S V)} (hout : s.host.outbox c = t :: rest) :
    ({ s with host := { s.host with outbox := Function.update s.host.outbox c rest } } :
      Space S V).Inv where
  sound := ⟨hi.sound.host_lt, hi.sound.skip_lt, hi.sound.absent,
    fun id g hm hg => { hi.sound.known id g hm hg with }⟩
  receiving := hi.receiving
  stocked := ⟨hi.stocked.registered, hi.stocked.stamped⟩
  wire := hi.wire
  live := hi.live
  unopened := hi.unopened
  lt := hi.lt
  distinct := hi.distinct
  marked c' hc' u hu := by
    have hmarked := hi.marked c' hc'
    simp only [Function.update_apply] at hu
    split_ifs at hu with he
    · subst he
      rw [hout] at hmarked
      exact hmarked u (List.mem_cons_of_mem _ hu)
    · exact hmarked u hu

/-- **Step lemma.** -/
theorem inv_step (hi : s.Inv) {a : SpaceAct S V} (h : s.step a = some s') : s'.Inv := by
  cases a with
  | open_ p pp ps am τ =>
    simp only [step] at h
    split at h
    · cases h
    rename_i hnone
    obtain rfl := Option.some.inj h
    obtain ⟨c, hg, hst, -, hself, hsent⟩ := GuestTransceiver.open_guest (τ := τ) hnone pp ps
    have hacc := hi.accept am τ
    have hnext := (accept_spec (τ := τ) hi.sound am).1
    have hid (q : ℕ) : (s.peers q).id ≠ s.host.nextGuestId := ne_of_lt (hi.lt q)
    refine ⟨hacc.sound, hacc.receiving, hacc.stocked, fun q => ?_, fun q => ?_, fun q => ?_,
      fun q => ?_, fun q q' hne => ?_, hacc.marked⟩
    · by_cases hq : q = p
      · subst hq
        simp [hsent]
      · rw [setPeer_of_ne _ hq]
        exact hacc.wire q
    · by_cases hq : q = p
      · subst hq
        rw [setPeer_self]
        intro _ c' hc'
        rw [hg] at hc'
        obtain rfl := Option.some.inj hc'
        rw [hst, hself]
        exact ⟨by decide, by decide⟩
      · rw [setPeer_of_ne _ hq]
        exact hacc.live q
    · by_cases hq : q = p
      · subst hq
        rw [setPeer_self]
        exact fun h0 => absurd (hi.sound.host_lt) (by rw [show s.host.nextGuestId = 0 from h0]; simp)
      · rw [setPeer_of_ne _ hq]
        exact hacc.unopened q
    · by_cases hq : q = p
      · subst hq
        rw [setPeer_self, setPeer_host, hnext]
        exact Nat.lt_succ_self _
      · rw [setPeer_of_ne _ hq]
        exact hacc.lt q
    · by_cases hq : q = p
      · subst hq
        rw [setPeer_self, setPeer_of_ne _ hne.symm]
        exact fun he => absurd he.symm (hid q')
      · rw [setPeer_of_ne _ hq]
        by_cases hq' : q' = p
        · subst hq'
          rw [setPeer_self]
          exact fun he => absurd he (hid q)
        · rw [setPeer_of_ne _ hq']
          exact hi.distinct q q' hne
  | publish p x failure τ =>
    obtain rfl := Option.some.inj h
    exact hi.take (GuestTransceiver.local_transmit _ _)
  | joinGroup p name failure τ =>
    obtain rfl := Option.some.inj h
    exact hi.take (GuestTransceiver.local_joinGroup _ _)
  | leaveGroup p name failure τ =>
    obtain rfl := Option.some.inj h
    exact hi.take (GuestTransceiver.local_leaveGroup _ _)
  | joinAgain p name τ =>
    simp only [step] at h
    split_ifs at h
    obtain rfl := Option.some.inj h
    exact hi.take (GuestTransceiver.local_transmit _ _)
  | hostReceive p τ =>
    simp only [step] at h
    split at h
    · cases h
    rename_i t rest hto
    obtain rfl := Option.some.inj h
    have hwire := hi.wire p
    rw [hto] at hwire
    have hrec := hi.hostReceive (p := p) (hwire t List.mem_cons_self) τ
    exact hrec.setPeer (p := p) rfl (fun u hu => hwire u (List.mem_cons_of_mem _ hu)) (hrec.live p)
      fun hu => by have hnil := (hi.unopened p hu).2; rw [hto] at hnil; cases hnil
  | guestReceive p τ =>
    simp only [step] at h
    split at h
    swap
    · cases h
    rename_i c t rest hc hout
    obtain rfl := Option.some.inj h
    have hpop := hi.pop hout
    refine hpop.setPeer (p := p) rfl (fun u hu => ?_) (fun hopen => ?_) fun hu => ?_
    · refine (List.mem_append.mp hu).elim (hi.wire p u) fun hu => ?_
      simp only [GuestTransceiver.receive, hc] at hu
      exact GuestTransceiver.finish_sent _ _ u hu
    · have hmarked := hi.marked _ (.inl hopen)
      rw [show s.host.outbox _ = _ from hout] at hmarked
      exact GuestTransceiver.live_receive (hi.live p hopen) (hmarked t List.mem_cons_self)
    · have hnone := (hi.unopened p hu).1
      rw [hc] at hnone
      cases hnone
  | hostError id what τ =>
    obtain rfl := Option.some.inj h
    exact hi.hostError id what τ
  | guestError p what τ =>
    obtain rfl := Option.some.inj h
    exact hi.take (GuestTransceiver.local_channelError what)

/-! ## The members follow the host -/

/-- Every guest with a connection will have what the host has, of the types it is a member of. -/
def Synced (s : Space S V) : Prop :=
  ∀ p n, (s.peers p).guest.hostConnection ≠ none →
    SyncedAt (s.peers p).guest.pool s.host (s.peers p).id n

/-- The host does not process a join of a guest that will hold something stale. -/
def JoinsFresh (s : Space S V) : SpaceAct S V → Prop
  | .hostReceive p _ => ∀ t, (s.peers p).toHost.head? = some t →
      (s.peers p).guest.hostConnection ≠ none → s.host.isOpen (s.peers p).id = true →
      ∀ n, (S.descriptor n).cached = true → t.memberEvent n = some .join →
        ¬ Stale (arriving (s.peers p).guest.pool s.host (s.peers p).id n) (s.host.pool n)
  | _ => True

theorem Inv.ne_of_open (hi : s.Inv) (hq : q ≠ p)
    (hconn : (s.peers q).guest.hostConnection ≠ none) : (s.peers q).id ≠ (s.peers p).id :=
  fun he => hconn (hi.unopened q (hi.distinct q p hq he)).1

/-- The host has its turn. -/
theorem Synced.host (hs : s.Synced) {h : HostTransceiver S V}
    (ht : ∀ p n, (s.peers p).guest.hostConnection ≠ none →
      Tracks n (s.peers p).id s.host h ∨ h.isOpen (s.peers p).id = false) :
    ({ s with host := h } : Space S V).Synced := fun p n hconn =>
  (ht p n hconn).elim (hs p n hconn).tracks .of_closed

/-- A guest has its turn; what is on its way to the others is as before. -/
theorem Synced.setPeer (hs : s.Synced) {h : HostTransceiver S V} {peer : Peer S V}
    (hother : ∀ q n, q ≠ p → (s.peers q).guest.hostConnection ≠ none →
      Tracks n (s.peers q).id s.host h)
    (hself : ∀ n, peer.guest.hostConnection ≠ none → SyncedAt peer.guest.pool h peer.id n) :
    (({ s with host := h } : Space S V).setPeer p peer).Synced := by
  intro q n
  by_cases hq : q = p
  · subst hq
    rw [setPeer_self]
    exact hself n
  · rw [setPeer_of_ne _ hq]
    exact fun hconn => (hs q n hconn).tracks (hother q n hq hconn)

/-- A call of the application of a guest. -/
theorem Synced.take (hs : s.Synced) {r : GuestTurn S V} {again : Finset String}
    (hl : GuestTransceiver.Local (s.peers p).guest r) : (s.take p r again).Synced := by
  refine hs.setPeer (h := s.host) (fun q n _ _ => .refl n _ _) fun n hconn => ?_
  rw [hl.pool]
  exact hs p n fun hnone => hconn (hl.hostConnection.elim (·.trans hnone) id)

/-- **A transmission arrives at the host.** -/
theorem Synced.hostReceive (hi : s.Inv) (hs : s.Synced) {t : Transmission S V} (hw : t.wire = t)
    {τ : Timepoint} {n : String} (hconn : (s.peers p).guest.hostConnection ≠ none)
    (hfresh : s.host.isOpen (s.peers p).id = true → (S.descriptor n).cached = true →
      t.memberEvent n = some .join →
      ¬ Stale (arriving (s.peers p).guest.pool s.host (s.peers p).id n) (s.host.pool n)) :
    SyncedAt (s.peers p).guest.pool (s.host.receive (s.peers p).id τ t) (s.peers p).id n := by
  have hp := hs p n hconn
  rcases receive_cases (τ := τ) hi.sound hi.receiving hw with ⟨hc, he⟩ | hg | ⟨hopen, ha⟩
  · rw [he]
    exact hp
  · exact .of_closed hg.1
  · have han := ha n
    unfold Answers at han
    split at han
    · rename_i hev
      exact .joins hi.stocked han fun hn => hfresh hopen hn hev
    · exact fun _ _ hmem => absurd hmem han.member
    · exact hp.tracks han

/-- **A transmission arrives at a guest.** -/
theorem Synced.guestReceive (hi : s.Inv) (hs : s.Synced) {t : Transmission S V}
    {rest : List (Transmission S V)} {c : Connection} {τ : Timepoint} {n : String}
    (hc : (s.peers p).guest.hostConnection = some c)
    (hout : s.host.outbox (s.peers p).id = t :: rest)
    (hconn : ((s.peers p).guest.receive τ t).guest.hostConnection ≠ none) :
    SyncedAt ((s.peers p).guest.receive τ t).guest.pool
      { s.host with outbox := Function.update s.host.outbox (s.peers p).id rest }
      (s.peers p).id n := by
  intro hn hopen hmem
  have hopen' : s.host.isOpen (s.peers p).id = true := hopen
  have hmarked := hi.marked _ (.inl hopen') t (by rw [hout]; exact List.mem_cons_self)
  have hview := GuestTransceiver.receive_view (hi.live p hopen') hmarked hc hn hconn
  have hp := hs p n (by rw [hc]; exact Option.some_ne_none c) hn hopen' hmem
  rw [arriving, hout, show t :: rest = [t] ++ rest from rfl, operations_append, drain_append,
    ← hview] at hp
  simpa [arriving, Function.update_self] using hp

/-- **Step lemma.** -/
theorem synced_step (hi : s.Inv) (hs : s.Synced) {a : SpaceAct S V} (h : s.step a = some s')
    (hfresh : s.JoinsFresh a) : s'.Synced := by
  cases a with
  | open_ p pp ps am τ =>
    simp only [step] at h
    split at h
    · cases h
    obtain rfl := Option.some.inj h
    obtain ⟨-, -, -, htracks, -, hnot, -⟩ := accept_spec (τ := τ) hi.sound am
    exact hs.setPeer (fun q n _ _ => htracks n _ (ne_of_lt (hi.lt q)))
      fun n _ _ _ hmem => absurd hmem (hnot n)
  | publish p x failure τ =>
    obtain rfl := Option.some.inj h
    exact hs.take (GuestTransceiver.local_transmit _ _)
  | joinGroup p name failure τ =>
    obtain rfl := Option.some.inj h
    exact hs.take (GuestTransceiver.local_joinGroup _ _)
  | leaveGroup p name failure τ =>
    obtain rfl := Option.some.inj h
    exact hs.take (GuestTransceiver.local_leaveGroup _ _)
  | joinAgain p name τ =>
    simp only [step] at h
    split_ifs at h
    obtain rfl := Option.some.inj h
    exact hs.take (GuestTransceiver.local_transmit _ _)
  | hostReceive p τ =>
    simp only [step] at h
    split at h
    · cases h
    rename_i t rest hto
    obtain rfl := Option.some.inj h
    have hw : t.wire = t := hi.wire p t (by rw [hto]; exact List.mem_cons_self)
    refine hs.setPeer (fun q n hq hconn => tracks_receive hi.sound hw (hi.ne_of_open hq hconn))
      fun n hconn => hs.hostReceive hi hw hconn fun hopen hn hev => ?_
    exact hfresh t (by rw [hto]; rfl) hconn hopen n hn hev
  | guestReceive p τ =>
    simp only [step] at h
    split at h
    swap
    · cases h
    rename_i c t rest hc hout
    obtain rfl := Option.some.inj h
    refine hs.setPeer (fun q n hq hconn => ?_) fun n hconn => hs.guestReceive hi hc hout hconn
    exact tracks_of_eq rfl Iff.rfl rfl (Function.update_of_ne (hi.ne_of_open hq hconn) ..)
  | hostError id what τ =>
    obtain rfl := Option.some.inj h
    refine hs.host fun p n _ => ?_
    by_cases hid : (s.peers p).id = id
    · exact .inr (by rw [hid]; exact closed_channelError what)
    · exact .inl (tracks_channelError hid what)
  | guestError p what τ =>
    obtain rfl := Option.some.inj h
    exact hs.take (GuestTransceiver.local_channelError what)

/-! ## Runs -/

/-- The steps of a space. -/
def Step : Space S V → SpaceAct S V → Space S V → Prop := Lts.ofPartial step

theorem Initial.inv (h : s.Initial) : s.Inv where
  sound := {
    host_lt := by rw [h.nextGuestId]; exact Nat.lt_succ_self _
    skip_lt := by simp
    absent := fun id _ => ⟨h.guestConnections id, fun n => by simp [h.groups n],
      fun n k e he => by rw [h.pool] at he; cases he⟩
    known := fun id g _ hg => by rw [h.guestConnections id] at hg; cases hg }
  receiving id g hg := by rw [h.guestConnections id] at hg; cases hg
  stocked := ⟨fun n _ k => by rw [h.pool]; rfl, fun n k e he => by rw [h.pool] at he; cases he⟩
  wire p t ht := by rw [h.toHost p] at ht; cases ht
  live p hopen c hc := by rw [h.hostConnection p] at hc; cases hc
  unopened p _ := ⟨h.hostConnection p, h.toHost p⟩
  lt p := by rw [h.id p, h.nextGuestId]; decide
  distinct p q _ _ := h.id p
  marked c _ t ht := by rw [h.outbox c] at ht; cases ht

theorem Initial.synced (h : s.Initial) : s.Synced := fun p _ hconn =>
  absurd (h.hostConnection p) hconn

/-- A synced guest to which nothing is on its way has what the host has. -/
theorem Synced.view_eq (hs : s.Synced) {n : String} (hn : (S.descriptor n).cached = true)
    (hsettled : s.Settled p) (hconn : (s.peers p).guest.hostConnection ≠ none)
    (hmem : (s.peers p).id ∈ s.host.groups n) :
    ((s.peers p).guest.pool n).view = (s.host.pool n).view := by
  have hp := hs p n hconn hn hsettled.isOpen hmem
  rwa [arriving, hsettled.toGuest] at hp

/-- **Cache replication across leave and rejoin.** In every run whose joins are processed while
the guest will hold nothing stale, a settled member has what the host has. -/
theorem replication_of_run {l : List (SpaceAct S V)} (h0 : s.Initial)
    (hrun : Lts.Run (Lts.Guarded Step JoinsFresh) s l s') {n : String}
    (hn : (S.descriptor n).cached = true) (hsettled : s'.Settled p)
    (hconn : (s'.peers p).guest.hostConnection ≠ none) (hmem : (s'.peers p).id ∈ s'.host.groups n) :
    ((s'.peers p).guest.pool n).view = (s'.host.pool n).view :=
  (hrun.invariant (I := fun s : Space S V => s.Inv ∧ s.Synced)
    (fun _ _ _ hI hstep => ⟨inv_step hI.1 hstep.1, synced_step hI.1 hI.2 hstep.1 hstep.2⟩)
    ⟨h0.inv, h0.synced⟩).2.view_eq hn hsettled hconn hmem

/-! ## Rejoining -/

theorem view_of_clones_nil {d : StructDescriptor} {c : Container V d} (h : c.clones = []) :
    c.view = fun _ => none := by
  funext k
  cases hk : c.lookup k with
  | none => simp [Container.view, hk]
  | some e =>
    have he : e ∈ c.clones := Container.mem_clones.mpr (by rw [Container.key_of_lookup hk, hk])
    rw [h] at he
    exact absurd he List.not_mem_nil

theorem testSchema_cached {n : String} (hn : (testSchema.descriptor n).cached = true) :
    n = "DotsTestStruct" := by
  by_contra hne
  simp [testSchema, hne] at hn

/-- A guest that joins holds nothing, and nothing is on its way to it. -/
def joinsEmpty (s : Space testSchema ℕ) : SpaceAct testSchema ℕ → Bool
  | .hostReceive p _ =>
    (s.peers p).toHost.all (fun t => t.memberEvent "DotsTestStruct" != some .join) ||
      (s.host.outbox (s.peers p).id).isEmpty &&
        ((s.peers p).guest.pool "DotsTestStruct").clones.isEmpty
  | _ => true

theorem joinsFresh_of_joinsEmpty (s : Space testSchema ℕ) (a : SpaceAct testSchema ℕ)
    (h : joinsEmpty s a = true) : s.JoinsFresh a := by
  cases a with
  | hostReceive p τ =>
    intro t ht _ _ n hn hev
    obtain rfl := testSchema_cached hn
    simp only [joinsEmpty, Bool.or_eq_true, List.all_eq_true, bne_iff_ne, Bool.and_eq_true,
      List.isEmpty_iff] at h
    rcases h with h | ⟨hout, hnil⟩
    · exact absurd hev (h t (List.mem_of_mem_head? ht))
    · rw [arriving, hout, view_of_clones_nil hnil]
      exact not_stale_empty _
  | _ => trivial

/-- Guest 0 joins and leaves, guest 1 creates an instance, guest 0 joins again. -/
def rejoinEmpty : List (SpaceAct testSchema ℕ) :=
  connecting 0 ++ connecting 1 ++ joining 0 ++ [.guestReceive 0 0] ++ leaving 0 ++
    publishing 1 (testPublish 1 5) ++ joining 0 ++ [.guestReceive 0 0, .guestReceive 0 0]

theorem replication_of_run_rejoinEmpty :
    ∃ s, Lts.Run (Lts.Guarded Step JoinsFresh) testSpace rejoinEmpty s ∧
      ((s.peers 0).guest.pool "DotsTestStruct").clones.length = 1 ∧
      ((s.peers 0).guest.pool "DotsTestStruct").view = (s.host.pool "DotsTestStruct").view := by
  have h : (Lts.exec (fun s a => if joinsEmpty s a then step s a else none) testSpace
      rejoinEmpty).any (fun s => s.isSettled 0 && (s.peers 0).guest.connected &&
        decide ((s.peers 0).id ∈ s.host.groups "DotsTestStruct") &&
        decide (((s.peers 0).guest.pool "DotsTestStruct").clones.length = 1)) = true := by
    decide +kernel
  obtain ⟨s, hs, hc⟩ := (Option.any_eq_true ..).mp h
  simp only [Bool.and_eq_true, decide_eq_true_eq] at hc
  obtain ⟨⟨⟨hsettled, hconn⟩, hmem⟩, hlen⟩ := hc
  have hrun := Lts.run_of_exec_guarded joinsFresh_of_joinsEmpty hs
  exact ⟨s, hrun, hlen, replication_of_run (n := "DotsTestStruct") testSpace_initial hrun
    (by decide) (settled_of_isSettled s hsettled)
    (GuestTransceiver.hostConnection_of_connected hconn) hmem⟩

/-- Guest 0 has an instance when it leaves, guest 1 removes it, guest 0 joins again. -/
def rejoinStale : List (SpaceAct testSchema ℕ) :=
  connecting 0 ++ connecting 1 ++ joining 0 ++ [.guestReceive 0 0] ++
    publishing 1 (testPublish 1 5) ++ [.guestReceive 0 0] ++ leaving 0 ++
    publishing 1 { testPublish 1 5 with remove := true } ++ joining 0 ++ [.guestReceive 0 0]

/-- **A removed instance remains** with a guest that was not a member when it was removed. -/
theorem removed_instance_remains :
    ∃ s, Lts.Run Step testSpace rejoinStale s ∧ s.Settled 0 ∧ (s.peers 0).guest.connected = true ∧
      (s.peers 0).id ∈ s.host.groups "DotsTestStruct" ∧
      (((s.peers 0).guest.pool "DotsTestStruct").lookup [some 1]).isSome = true ∧
      (s.host.pool "DotsTestStruct").lookup [some 1] = none ∧
      ((s.peers 0).guest.pool "DotsTestStruct").view ≠ (s.host.pool "DotsTestStruct").view := by
  have h : (Lts.exec step testSpace rejoinStale).any (fun s =>
      s.isSettled 0 && (s.peers 0).guest.connected &&
        decide ((s.peers 0).id ∈ s.host.groups "DotsTestStruct") &&
        (((s.peers 0).guest.pool "DotsTestStruct").lookup [some 1]).isSome &&
        ((s.host.pool "DotsTestStruct").lookup [some 1]).isNone) = true := by
    decide +kernel
  obtain ⟨s, hs, hc⟩ := (Option.any_eq_true ..).mp h
  simp only [Bool.and_eq_true, decide_eq_true_eq, Option.isNone_iff_eq_none] at hc
  obtain ⟨⟨⟨⟨hsettled, hconn⟩, hmem⟩, hguest⟩, hhost⟩ := hc
  refine ⟨s, Lts.run_of_exec hs, settled_of_isSettled s hsettled, hconn, hmem, hguest, hhost,
    fun he => ?_⟩
  have hk := congrFun he [some 1]
  obtain ⟨e, he'⟩ := Option.isSome_iff_exists.mp hguest
  simp [Container.view, hhost, he'] at hk

end Space

end Dots
