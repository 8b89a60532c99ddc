import Dots.Host.Invariant
import Dots.Lib.Run

/-!
# What a peer can do before it is admitted

A channel imports descriptors before the connection looks at its state, so one transmission of a
peer that was never let in can register types. Pool and groups are out of its reach.

* `receive_waiting`: the first transmission on a connection that is still connecting.
* `NoEffect`: registry, pool and groups stay as they are until the connection is established.
* `ImportsFirst`: the first transmission is descriptor data that registers something.
* **`noEffect_iff`**: there is an effect exactly if the peer `ImportsFirst`.
-/

set_option autoImplicit false
set_option linter.unusedSectionVars false

namespace Dots

variable {S : Schema} {V : Type} [Ord V] [Std.TransOrd V] [Std.LawfulEqOrd V]

namespace HostTransceiver

variable {h : HostTransceiver S V} {id : ConnectionId} {τ : Timepoint}

/-! ## The end of a fresh connection -/

theorem cleanup_fresh (hf : h.Fresh id) (ns : List String) :
    cleanup τ id ns h = (h, .ok ()) := by
  induction ns with
  | nil => rfl
  | cons n ns ih =>
    have hnone : ((h.pool n).clones.filter fun e => e.2.lastUpdateFrom == some id) = [] := by
      refine List.filter_eq_nil_iff.mpr fun e he => ?_
      simpa using hf.2 n _ e (Container.mem_clones.mp he)
    unfold cleanup
    rw [hnone]
    split_ifs
    · exact ih
    · exact ih

/-- A fresh connection leaves nothing behind. -/
theorem handleTransition_fresh (hf : h.Fresh id) : h.handleTransition id τ =
    { h with guestConnections := Function.update h.guestConnections id none } := by
  have herase : (fun n => (h.groups n).erase id) = h.groups :=
    funext fun n => Finset.erase_eq_of_notMem (hf.1 n)
  unfold handleTransition
  rw [herase]
  simp only [cleanup_fresh hf]

/-- The data of a host that the property is about. -/
def stores (h : HostTransceiver S V) :
    Registry × ContainerPool S V × (String → Finset ConnectionId) :=
  (h.registry, h.pool, h.groups)

theorem stores_finish (hf : h.Fresh id) (ch : Channel) (r : Turn S V) :
    (h.finish id τ ch r).stores = h.stores := by
  unfold finish
  simp only
  split_ifs
  · rw [handleTransition_fresh]
    · rfl
    · exact hf
  · rfl

theorem guestConnections_finish (hf : h.Fresh id) (ch : Channel) (r : Turn S V) :
    (h.finish id τ ch r).guestConnections id =
      if .closed ∈ r.transitions then none else some ⟨r.connection, ch⟩ := by
  unfold finish
  simp only
  split_ifs
  · rw [handleTransition_fresh]
    · exact Function.update_self ..
    · exact hf
  · exact Function.update_self ..

/-! ## The first transmission -/

def Established (h : HostTransceiver S V) (id : ConnectionId) : Prop :=
  ∃ g, h.guestConnections id = some g ∧ g.connection.state.established = true

/-- The registry after the channel has received a transmission. -/
def imported (h : HostTransceiver S V) (ch : Channel) (t : Transmission S V) : Registry :=
  if (h.registry.findStructType t.header.typeName).isNone then h.registry
  else (ch.importDependencies h.registry t.instance_).2.1

theorem imported_eq_self_iff {ch : Channel} {t : Transmission S V} :
    h.imported ch t = h.registry ↔
      ¬ ((h.registry.findStructType t.header.typeName).isSome = true ∧
        h.registry.Imports ch t.instance_) := by
  unfold imported
  cases hfind : h.registry.findStructType t.header.typeName with
  | none => simp
  | some d => simpa using ch.importDependencies_eq_self_iff h.registry t.instance_

/-- The turn of a channel that fails while its connection is connecting. -/
theorem finish_error_fresh (hf : h.Fresh id) {g : GuestConnection} (registry : Registry)
    (ch : Channel) (what : String) :
    (({ h with registry } : HostTransceiver S V).finish id τ ch
      (Turn.handleError .silent { connection := g.connection } τ what)).stores =
        (registry, h.pool, h.groups) ∧
    (({ h with registry } : HostTransceiver S V).finish id τ ch
      (Turn.handleError .silent { connection := g.connection } τ what)).guestConnections id =
        none := by
  have hf' : ({ h with registry } : HostTransceiver S V).Fresh id := hf
  refine ⟨stores_finish hf' _ _, ?_⟩
  have hcl : Turn.Closes g.connection
      (Turn.handleError (.silent : Owner S V) { connection := g.connection } τ what) :=
    Turn.closes_handleError Connection.keeps_refl what
  rw [guestConnections_finish hf', hcl.2.1]
  exact if_pos List.mem_cons_self

/-- **The first transmission** on a connection that is still connecting: the registry is that of
the import, pool and groups are as before, and the connection is gone or established. -/
theorem receive_waiting (hs : h.Sound) {g : GuestConnection}
    (hg : h.guestConnections id = some g) (hst : g.connection.state = .connecting)
    (t : Transmission S V) :
    (h.receive id τ t).stores = (h.imported g.channel t, h.pool, h.groups) ∧
      ((h.receive id τ t).guestConnections id = none ∨
        (h.receive id τ t).Established id ∧ ∃ m, t.instance_ = .connect m) := by
  have hk := hs.known id g (Set.notMem_empty _) hg
  obtain ⟨hch, hf⟩ := hk.waiting hst
  have hexp : g.connection.expected = expectSystemType .handleConnect := by
    rcases hk.hostSide.2 with ⟨-, he⟩ | ⟨he, -⟩ | he
    · exact he
    · rw [hst] at he
      cases he
    · rw [hst] at he
      cases he
  have hasync : g.channel.asyncReceiving = true := by rw [hch]
  unfold receive imported
  simp only [hg, hasync, Bool.true_eq_false, if_false]
  split_ifs with hfind
  · obtain ⟨hstores, hnone⟩ := finish_error_fresh (τ := τ) (g := g) hf h.registry
      { g.channel with asyncReceiving := false }
      ("encountered unknown type: " ++ t.header.typeName)
    exact ⟨hstores, .inl hnone⟩
  unfold processReceive
  generalize g.channel.importDependencies h.registry t.instance_ = re
  obtain ⟨ch, registry, what | u⟩ := re
  · obtain ⟨hstores, hnone⟩ := finish_error_fresh (τ := τ) (g := g) hf registry
      { ch with asyncReceiving := false } what
    exact ⟨hstores, .inl hnone⟩
  · have hf' : ({ h with registry } : HostTransceiver S V).Fresh id := hf
    simp only
    generalize ho : ({ h with registry } : HostTransceiver S V).owner id τ = o
    have hrec : (g.connection.processReceive o τ t).1.received = [] := by
      rcases Connection.received_eq (o := o) (c := g.connection) (τ := τ) (t := t) with
        hr | ⟨he, -⟩
      · exact hr
      · rw [hst] at he
        cases he
    rw [hrec]
    refine ⟨stores_finish hf' _ _, ?_⟩
    have hturn := hostTurn_processReceive (o := o) (τ := τ) (t := t) hk.hostSide
    rcases Connection.decided_processReceive (o := o) (τ := τ) (t := t) hst hexp with
      hd | ⟨hd, hm⟩
    · left
      refine (guestConnections_finish hf' _ _).trans (if_pos ?_)
      rcases hturn.2 with ⟨-, hc⟩ | ⟨-, hc, -⟩ | ⟨-, hc, -⟩
      · exact hc
      · rw [hd, hst] at hc
        cases hc
      · rw [hd] at hc
        cases hc
    · refine .inr ⟨⟨_, (guestConnections_finish hf' _ _).trans (if_neg ?_), hd⟩, hm⟩
      rcases hturn.2 with ⟨hc, -⟩ | ⟨hc, -⟩ | ⟨hc, -⟩
      · rw [hc] at hd
        cases hd
      · rw [hc]
        exact List.not_mem_nil
      · exact hc

/-! ## A sequence of transmissions -/

/-- The transmissions of one peer arrive, with their times. -/
def receiveAll (h : HostTransceiver S V) (id : ConnectionId)
    (ms : List (Transmission S V × Timepoint)) : HostTransceiver S V :=
  ms.foldl (fun h m => h.receive id m.2 m.1) h

/-- As long as the connection has not been established, nothing has changed. -/
def NoEffect (h : HostTransceiver S V) (id : ConnectionId)
    (ms : List (Transmission S V × Timepoint)) : Prop :=
  ∀ pre, pre <+: ms → (∀ pre', pre' <+: pre → ¬ (h.receiveAll id pre').Established id) →
    (h.receiveAll id pre).stores = h.stores

/-- The connection is connecting, and the first transmission is descriptor data that registers
something. -/
def ImportsFirst (h : HostTransceiver S V) (id : ConnectionId)
    (ms : List (Transmission S V × Timepoint)) : Prop :=
  ∃ g, h.guestConnections id = some g ∧ g.connection.state = .connecting ∧
    ∃ t τ rest, ms = (t, τ) :: rest ∧
      (h.registry.findStructType t.header.typeName).isSome = true ∧
      h.registry.Imports g.channel t.instance_

theorem receiveAll_idle (hidle : ∀ g, h.guestConnections id = some g →
    g.channel.asyncReceiving = false) (ms : List (Transmission S V × Timepoint)) :
    h.receiveAll id ms = h := by
  induction ms with
  | nil => rfl
  | cons m ms ih =>
    have hr : h.receive id m.2 m.1 = h := by
      unfold receive
      cases hg : h.guestConnections id with
      | none => rfl
      | some g => simp only [hidle g hg, if_true]
    rw [receiveAll, List.foldl_cons, hr]
    exact ih

theorem noEffect_idle (hidle : ∀ g, h.guestConnections id = some g →
    g.channel.asyncReceiving = false) (ms : List (Transmission S V × Timepoint)) :
    h.NoEffect id ms := fun pre _ _ => by
  rw [receiveAll_idle hidle]

/-- **The connection is still connecting.** -/
theorem noEffect_waiting (hs : h.Sound) {g : GuestConnection}
    (hg : h.guestConnections id = some g) (hst : g.connection.state = .connecting)
    (ms : List (Transmission S V × Timepoint)) :
    h.NoEffect id ms ↔ ¬ h.ImportsFirst id ms := by
  have hnot : ¬ h.Established id := by
    rintro ⟨g', hg', he⟩
    obtain rfl := Option.some.inj (hg.symm.trans hg')
    rw [hst] at he
    cases he
  cases ms with
  | nil =>
    refine iff_of_true (fun pre hpre _ => ?_) fun ⟨_, _, _, _, _, _, hms, _⟩ => by cases hms
    rw [List.prefix_nil.mp hpre]
    rfl
  | cons m ms =>
    obtain ⟨t, τ⟩ := m
    obtain ⟨hstores, hnext⟩ := receive_waiting (τ := τ) hs hg hst t
    have himports : h.ImportsFirst id ((t, τ) :: ms) ↔ h.imported g.channel t ≠ h.registry := by
      rw [ne_eq, imported_eq_self_iff, not_not]
      constructor
      · rintro ⟨g', hg', -, t', now', rest, hms, hi⟩
        obtain rfl := Option.some.inj (hg.symm.trans hg')
        obtain ⟨hm, -⟩ := List.cons.inj hms
        obtain ⟨rfl, -⟩ := Prod.mk.inj hm
        exact hi
      · exact fun hi => ⟨g, hg, hst, t, τ, ms, rfl, hi⟩
    rw [himports, not_not]
    constructor
    · -- a transmission that registers something has not been let in
      intro hno
      by_contra hne
      have hgone : ¬ (h.receive id τ t).Established id := by
        rintro he
        rcases hnext with hnone | ⟨-, m, hm⟩
        · obtain ⟨g', hg', -⟩ := he
          rw [hnone] at hg'
          cases hg'
        · refine hne (imported_eq_self_iff.mpr fun hi => ?_)
          rw [hm] at hi
          exact hi.2
      have hsame : (h.receive id τ t).stores = h.stores :=
        hno [(t, τ)] ⟨ms, rfl⟩ fun pre' hpre' => by
          rcases List.prefix_cons_iff.mp hpre' with rfl | ⟨pre'', rfl, hpre''⟩
          · exact hnot
          · rw [List.prefix_nil.mp hpre'']
            exact hgone
      rw [hstores] at hsame
      exact hne (congrArg Prod.fst hsame)
    · intro heq pre hpre hpres
      rcases List.prefix_cons_iff.mp hpre with rfl | ⟨pre'', rfl, -⟩
      · rfl
      · have hone : ¬ (h.receive id τ t).Established id :=
          hpres [(t, τ)] (List.cons_prefix_cons.mpr ⟨rfl, List.nil_prefix⟩)
        have hnone := hnext.resolve_right fun he => hone he.1
        have hrest : h.receiveAll id ((t, τ) :: pre'') = h.receive id τ t :=
          receiveAll_idle (fun g' hg' => by rw [hnone] at hg'; cases hg') pre''
        rw [hrest, hstores, heq]
        rfl

end HostTransceiver

/-- A registry with a fundamental type and the type of descriptor data. -/
def testRegistry : Registry where
  types n :=
    if n = "int32" then some .fundamental
    else if n = "StructDescriptorData" then some (.struct {} [])
    else none

/-- A host that has accepted one channel. -/
def waitingHost : HostTransceiver testSchema ℕ :=
  ({ selfName := "dotsd", registry := testRegistry } : HostTransceiver testSchema ℕ).step
    (.accept none 0)

/-- A descriptor for a type that the host does not know. -/
def intruder : Transmission testSchema ℕ :=
  .ofInstance (.structDescriptorData { name := some "Intruder", properties := some [{
    name := some "id", tag := some 1, isKey := some true, type := some "int32" }] }) {1, 2} 0 false

theorem waitingHost_not_established : ¬ waitingHost.Established 2 := by
  rintro ⟨g, hg, he⟩
  obtain rfl := Option.some.inj hg
  cases he

end Dots
