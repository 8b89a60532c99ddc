import Dots.Auth.Model
import Dots.Host.Cleanup

/-!
# The clients of the daemon

The daemon publishes a `DotsClient` for each connection. Those of closed connections stay as long as
an instance tells that it comes from them.

* `ClientSchema`, `DotsClient`: the type and its instances.
* `cleanUpClients`: the removal of the clients that are not needed any more.
* **`cleanUpClients_exact`**: which clients are removed.
-/

set_option autoImplicit false
set_option linter.unusedSectionVars false

namespace Dots

/-! ## Clients -/

def dotsClient : StructDescriptor where
  name := "DotsClient"
  propertyDescriptors := [
    { name := "id", tag := 1, isKey := true },
    { name := "name", tag := 2, isKey := false },
    { name := "running", tag := 3, isKey := false },
    { name := "publishedTypes", tag := 4, isKey := false },
    { name := "subscribedTypes", tag := 5, isKey := false },
    { name := "connectionState", tag := 6, isKey := false }]
  cached := true
  internal := true
  cleanup := false
  substructOnly := false
  tags_nodup := by decide

/-- A space with the type `DotsClient`. -/
structure ClientSchema extends Schema where
  client : descriptor "DotsClient" = dotsClient

/-- The values of the properties of a client. -/
class ClientValue (V : Type) where
  uint32 : ConnectionId → V
  connectionState : DotsConnectionState → V

abbrev DotsClient (C : ClientSchema) (V : Type) := Struct V (C.descriptor "DotsClient")

variable {C : ClientSchema} {V : Type}

namespace DotsClient

def id (client : DotsClient C V) : Option V := client.value 1

def connectionState (client : DotsClient C V) : Option V := client.value 6

/-- `DotsClient{ .id = id }`. -/
def ofId (id : V) : DotsClient C V where
  value t := if t = 1 then some id else none
  value_eq_none t ht := by
    rw [C.client] at ht
    refine if_neg ?_
    rintro rfl
    exact ht (by decide)

theorem key_eq (client : DotsClient C V) : client.key = [client.id] := by
  have hkeys : (C.descriptor "DotsClient").keyPropertyDescriptors =
      dotsClient.keyPropertyDescriptors := by rw [C.client]
  rw [Struct.key, hkeys]
  rfl

@[simp] theorem key_ofId (id : V) : (ofId id : DotsClient C V).key = [some id] := key_eq _

theorem publishCheck_ofId (id : V) : publishCheck (ofId id : DotsClient C V) = .ok () := by
  have hkeys : (C.descriptor "DotsClient").keyProperties = {1} := by
    rw [C.client]
    decide
  have hsubstruct : (C.descriptor "DotsClient").substructOnly = false := by
    rw [C.client]
    rfl
  have hvalid : (C.descriptor "DotsClient").keyProperties ⊆
      (ofId id : DotsClient C V).validProperties := by
    rw [hkeys, Finset.singleton_subset_iff]
    exact Struct.mem_validProperties.mpr ⟨id, rfl⟩
  rw [publishCheck, hsubstruct, if_neg Bool.false_ne_true, if_neg (not_not_intro hvalid)]

end DotsClient

namespace HostTransceiver

variable [Ord V] [Std.TransOrd V] [Std.LawfulEqOrd V] [DecidableEq V] [ClientValue V]
variable (h : HostTransceiver C.toSchema V) (now : Timepoint)

/-! ## The removal -/

/-- `cloneInformation.createdFrom == client.id || cloneInformation.lastUpdateFrom == client.id` -/
def refersTo (id : Option V) (cloneInformation : DotsCloneInformation) : Bool :=
  cloneInformation.createdFrom.map ClientValue.uint32 == id ||
    cloneInformation.lastUpdateFrom.map ClientValue.uint32 == id

/-- The loops over the containers for one client. -/
def isStale (client : DotsClient C V) : Bool :=
  h.poolTypes.all fun n => (h.pool n).clones.all fun e => !refersTo client.id e.2

/-- The loop over the clients, which meets them in the order of their ids. -/
def expiredClients : List (Clone V (C.descriptor "DotsClient")) → Except String (List V)
  | [] => .ok []
  | (client, _) :: es =>
    if DotsClient.connectionState (C := C) client = some (ClientValue.connectionState .closed) ∧
        h.isStale client then do
      let id ← propertyValue "id" (DotsClient.id (C := C) client)
      return id :: (← expiredClients es)
    else expiredClients es

/-- `DotsDaemon::cleanUpClients`. -/
def cleanUpClients : HostTransceiver C.toSchema V × Except String Unit :=
  let h := { h with poolTypes := insert "DotsClient" h.poolTypes }
  match h.expiredClients (h.pool "DotsClient").clones with
  | .error what => (h, .error what)
  | .ok ids => removeAll now (ids.map (DotsClient.ofId (C := C))) h

/-! ## What is removed -/

/-- An instance in a container comes from the client, or was updated by it last. -/
def RefersTo (id : V) : Prop :=
  ∃ n k e, (h.pool n).lookup k = some e ∧
    (e.2.createdFrom.map ClientValue.uint32 = some id ∨
      e.2.lastUpdateFrom.map ClientValue.uint32 = some id)

/-- A client is cached. -/
def HasClient (id : V) : Prop :=
  ∃ k e, (h.pool "DotsClient").lookup k = some e ∧ DotsClient.id (C := C) e.1 = some id

/-- A client is cached as closed, and nothing refers to it. -/
def Expired (id : V) : Prop :=
  ∃ k e, (h.pool "DotsClient").lookup k = some e ∧ DotsClient.id (C := C) e.1 = some id ∧
    DotsClient.connectionState (C := C) e.1 = some (ClientValue.connectionState .closed) ∧
    ¬h.RefersTo id

variable {h now} {skip : Set ConnectionId}

theorem Tidy.insert_client (ht : h.Tidy skip) :
    ({ h with poolTypes := insert "DotsClient" h.poolTypes } :
      HostTransceiver C.toSchema V).Tidy skip where
  nodup := ht.nodup.insert
  pooled n k e he := ⟨List.mem_insert_of_mem (ht.pooled n k e he).1, (ht.pooled n k e he).2⟩
  members := ht.members

/-- A client is stale exactly if nothing refers to it. -/
theorem isStale_iff (ht : h.Tidy skip) {client : DotsClient C V} {id : V}
    (hid : client.id = some id) : h.isStale client = true ↔ ¬h.RefersTo id := by
  simp only [isStale, hid, List.all_eq_true, Bool.not_eq_true', RefersTo, refersTo,
    Bool.or_eq_false_iff, beq_eq_false_iff_ne]
  constructor
  · rintro hall ⟨n, k, e, he, href⟩
    have hmem : e ∈ (h.pool n).clones := Container.mem_clones.mpr (Container.key_of_lookup he ▸ he)
    have hno := hall n (ht.pooled n k e he).1 e hmem
    exact href.elim hno.1 hno.2
  · intro hno n _ e he
    have hlookup := Container.mem_clones.mp he
    exact ⟨fun heq => hno ⟨n, _, e, hlookup, .inl heq⟩, fun heq => hno ⟨n, _, e, hlookup, .inr heq⟩⟩

/-- The id of a cached client is valid, and it is its key. -/
theorem Tidy.exists_id (ht : h.Tidy skip) {k : List (Option V)}
    {e : Clone V (C.descriptor "DotsClient")}
    (he : (h.pool "DotsClient").lookup k = some e) :
    ∃ id, DotsClient.id (C := C) e.1 = some id ∧ k = [some id] := by
  have hkeys : (C.descriptor "DotsClient").keyProperties = {1} := by
    rw [C.client]
    decide
  have hvalid := (ht.pooled _ k e he).2.2
  rw [hkeys, Finset.singleton_subset_iff] at hvalid
  obtain ⟨id, hid⟩ := Struct.mem_validProperties.mp hvalid
  refine ⟨id, hid, ?_⟩
  rw [← Container.key_of_lookup he, DotsClient.key_eq]
  exact congrArg (fun v => [v]) hid

theorem expiredClients_eq (ht : h.Tidy skip) (es : List (Clone V (C.descriptor "DotsClient")))
    (hes : ∀ e ∈ es, e ∈ (h.pool "DotsClient").clones) :
    ∃ ids, h.expiredClients es = .ok ids ∧ ∀ id, id ∈ ids ↔ ∃ e ∈ es,
      DotsClient.id (C := C) e.1 = some id ∧
      DotsClient.connectionState (C := C) e.1 = some (ClientValue.connectionState .closed) ∧
      ¬h.RefersTo id := by
  induction es with
  | nil => exact ⟨[], rfl, by simp⟩
  | cons e es ih =>
    obtain ⟨ids, hids, hmem⟩ := ih fun e' he' => hes e' (List.mem_cons_of_mem e he')
    obtain ⟨id, hid, -⟩ := ht.exists_id (Container.mem_clones.mp (hes e List.mem_cons_self))
    have hstale := isStale_iff ht hid
    unfold expiredClients
    split_ifs with hclosed
    · refine ⟨id :: ids, ?_, fun id' => ?_⟩
      · rw [hid, hids]
        rfl
      rw [List.mem_cons, hmem]
      simp only [List.mem_cons, exists_eq_or_imp, hid, Option.some_inj]
      refine or_congr ⟨?_, fun hsame => hsame.1.symm⟩ Iff.rfl
      rintro rfl
      exact ⟨rfl, hclosed.1, hstale.mp hclosed.2⟩
    · refine ⟨ids, hids, fun id' => ?_⟩
      rw [hmem]
      simp only [List.mem_cons, exists_eq_or_imp, hid, Option.some_inj]
      refine (or_iff_right ?_).symm
      rintro ⟨rfl, hstate, hno⟩
      exact hclosed ⟨hstate, hstale.mpr hno⟩

/-- What a loop of removes leaves in the containers. -/
theorem lookup_removeAll {S : Schema} {n : String} (h : HostTransceiver S V) (now : Timepoint)
    (hc : (S.descriptor n).cached = true) (xs : List (Struct V (S.descriptor n)))
    (hx : ∀ x ∈ xs, publishCheck x = .ok ()) :
    (removeAll now xs h).2 = .ok () ∧ ∀ m k, ((removeAll now xs h).1.pool m).lookup k =
      if n = m ∧ k ∈ xs.map Struct.key then none else (h.pool m).lookup k := by
  rw [removeAll_eq hc xs hx]
  refine ⟨rfl, ?_⟩
  induction xs generalizing h with
  | nil => simp [publishAll]
  | cons x xs ih =>
    intro m k
    rw [List.map_cons, publishAll, ih _ fun y hy => hx y (List.mem_cons_of_mem x hy)]
    by_cases hkey : n = m ∧ x.key = k
    · obtain ⟨rfl, rfl⟩ := hkey
      rw [lookup_removal_self hc x]
      simp
    · rw [lookup_removal_of_ne hc x fun hn hk => hkey ⟨hn, hk⟩]
      refine if_congr (and_congr_right fun hn => ?_) rfl rfl
      rw [List.map_cons, List.mem_cons]
      exact (or_iff_right fun hk => hkey ⟨hn, hk.symm⟩).symm

/-- **The clients that are removed** are those that are closed and that no instance refers to.
Nothing else changes, so that no reference to a client is lost. -/
theorem cleanUpClients_exact (ht : h.Tidy skip) :
    (h.cleanUpClients now).2 = .ok () ∧
      (∀ n k e, ((h.cleanUpClients now).1.pool n).lookup k = some e ↔
        (h.pool n).lookup k = some e ∧ ¬(n = "DotsClient" ∧ ∃ id, k = [some id] ∧ h.Expired id)) ∧
      ∀ id, (h.cleanUpClients now).1.RefersTo id → h.HasClient id →
        (h.cleanUpClients now).1.HasClient id := by
  have hcached : (C.descriptor "DotsClient").cached = true := by
    rw [C.client]
    rfl
  obtain ⟨ids, hids, hmem⟩ := expiredClients_eq ht.insert_client (h.pool "DotsClient").clones
    fun _ he => he
  have hexpired (id : V) : id ∈ ids ↔ h.Expired id := by
    rw [hmem]
    constructor
    · rintro ⟨e, he, hid, hstate, hno⟩
      exact ⟨_, e, Container.mem_clones.mp he, hid, hstate, hno⟩
    · rintro ⟨k, e, he, hid, hstate, hno⟩
      exact ⟨e, Container.mem_clones.mpr (Container.key_of_lookup he ▸ he), hid, hstate, hno⟩
  have hkeys (k : List (Option V)) : k ∈ (ids.map (DotsClient.ofId (C := C))).map Struct.key ↔
      ∃ id, k = [some id] ∧ h.Expired id := by
    simp only [List.mem_map, exists_exists_and_eq_and, DotsClient.key_ofId, hexpired]
    exact exists_congr fun id => ⟨fun hk => ⟨hk.2.symm, hk.1⟩, fun hk => ⟨hk.2, hk.1.symm⟩⟩
  have hrun : h.cleanUpClients now = removeAll now (ids.map (DotsClient.ofId (C := C)))
      { h with poolTypes := insert "DotsClient" h.poolTypes } := by
    rw [cleanUpClients, hids]
  have hpublish : ∀ x ∈ ids.map (DotsClient.ofId (C := C)), publishCheck x = .ok () := by
    intro x hx
    obtain ⟨id, -, rfl⟩ := List.mem_map.mp hx
    exact DotsClient.publishCheck_ofId id
  obtain ⟨hok, hlookup⟩ := lookup_removeAll
    { h with poolTypes := insert "DotsClient" h.poolTypes } now hcached _ hpublish
  rw [← hrun] at hok hlookup
  have hleft (n : String) (k : List (Option V)) (e : Clone V (C.descriptor n)) :
      ((h.cleanUpClients now).1.pool n).lookup k = some e ↔
        (h.pool n).lookup k = some e ∧
          ¬(n = "DotsClient" ∧ ∃ id, k = [some id] ∧ h.Expired id) := by
    rw [hlookup]
    split_ifs with hgone
    · have hgone' := (hkeys k).mp hgone.2
      refine iff_of_false (by simp) fun hkept => ?_
      exact hkept.2 ⟨hgone.1.symm, hgone'⟩
    · refine (and_iff_left ?_).symm
      rintro ⟨rfl, hexists⟩
      exact hgone ⟨rfl, (hkeys k).mpr hexists⟩
  refine ⟨hok, hleft, ?_⟩
  rintro id ⟨n, k, e, he, href⟩ ⟨k', e', he', hid⟩
  refine ⟨k', e', (hleft _ _ _).mpr ⟨he', ?_⟩, hid⟩
  rintro ⟨-, id', hk', _, _, _, _, _, hno⟩
  obtain ⟨id'', hid'', hk''⟩ := ht.exists_id he'
  obtain rfl : id = id'' := Option.some_inj.mp (hid.symm.trans hid'')
  obtain rfl : id = id' := by simpa using hk''.symm.trans hk'
  exact hno ⟨n, k, e, ((hleft n k e).mp he).1, href⟩

/-- A space whose only type with properties is `DotsClient`. -/
def clientSchema : ClientSchema where
  descriptor n :=
    if n = "DotsClient" then dotsClient
    else
      { name := n, propertyDescriptors := [], cached := false, internal := false
        cleanup := false, substructOnly := false, tags_nodup := List.nodup_nil }
  name_eq n := by
    split_ifs with h
    · exact h.symm
    · rfl
  internalTypes_not_cached := by decide
  client := rfl

instance clientValue : ClientValue ℕ where
  uint32 id := id
  connectionState state := if state = .closed then 1 else 0

/-- A closed client, as `sender` published it. -/
def closedClient (id : ℕ) (sender : ConnectionId) : Transmission clientSchema.toSchema ℕ where
  header :=
    { typeName := "DotsClient", sentTime := some 0, attributes := {1, 6}, sender := some sender }
  instance_ := .struct "DotsClient"
    { value := fun t => if t = 1 then some id else if t = 6 then some 1 else none
      value_eq_none := fun t ht => by
        have h1 : t ≠ 1 := by rintro rfl; exact ht (by decide)
        have h6 : t ≠ 6 := by rintro rfl; exact ht (by decide)
        rw [if_neg h1, if_neg h6] }
  typed := rfl

/-- A host with two closed clients. The second one was published by the first one. -/
def hostOfClients : HostTransceiver clientSchema.toSchema ℕ :=
  ((({ selfName := "dotsd", registry := ⟨fun _ => none⟩ } :
    HostTransceiver clientSchema.toSchema ℕ).dispatchAndTransmit 0
      (closedClient 2 hostId)).1.dispatchAndTransmit 0 (closedClient 3 2)).1

theorem tidy_hostOfClients : hostOfClients.Tidy ∅ := by
  refine Tidy.dispatchAndTransmit (Tidy.dispatchAndTransmit
    ⟨List.nodup_nil, fun n k e he => ?_, fun n c hc _ => absurd hc (Finset.notMem_empty c)⟩ ?_) ?_
  · have hempty := Container.lookup_empty (V := ℕ) (d := clientSchema.descriptor n) k
    cases he.symm.trans hempty
  · decide
  · decide

/-- The second client is removed, and the first one stays for now. -/
theorem cleanUpClients_exact_clients :
    (hostOfClients.cleanUpClients 0).2 = .ok () ∧
      (((hostOfClients.cleanUpClients 0).1.pool "DotsClient").lookup [some 2]).isSome = true ∧
      ((hostOfClients.cleanUpClients 0).1.pool "DotsClient").lookup [some 3] = none :=
  ⟨(cleanUpClients_exact tidy_hostOfClients).1, by decide +kernel, by decide +kernel⟩

end HostTransceiver

end Dots
