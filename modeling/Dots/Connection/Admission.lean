import Dots.Connection.Phase

/-!
# Who is let in

A guest and the messages of an arbitrary host. `handleAuthorizationRequest` does not look at
`accepted`, so a guest that is turned away goes on like any other.

* `Session`: the guest, the states it has gone through, and whether it has been accepted.
* `Session.Trustworthy`: after each message, an established guest has been accepted.
* `Turned`: the first two messages are a hello and a response that turns the guest away.
* **`trustworthy_iff`**: the guest is trustworthy exactly if it is not `Turned` away.
-/

set_option autoImplicit false

namespace Dots

variable {S : Schema} {V : Type}

/-! ## The session of a guest -/

variable (S V) in
/-- A message that arrives at a guest, with the owner it meets and the time of its arrival. -/
structure Reception where
  owner : Owner S V
  now : Timepoint
  transmission : Transmission S V

def AnyStruct.isConnect : AnyStruct S V → Bool
  | connect _ => true
  | _ => false

/-- A response with `accepted` equal to true. -/
def AnyStruct.isAccepted : AnyStruct S V → Bool
  | connectResponse m => m.accepted == some true
  | _ => false

structure Session where
  connection : Connection
  transitions : List DotsConnectionState := []
  /-- Whether the guest has sent its `DotsMsgConnect`. -/
  connectSent : Bool := false
  /-- Whether the guest has received an accepting response after that. -/
  accepted : Bool := false

namespace Session

variable (s : Session)

/-- The guest receives a message. -/
def receive (m : Reception S V) : Session :=
  let r := (s.connection.processReceive m.owner m.now m.transmission).1
  { connection := r.connection
    transitions := s.transitions ++ r.transitions
    connectSent := s.connectSent || (system r.sent).any AnyStruct.isConnect
    accepted := s.accepted || s.connectSent && m.transmission.instance_.isAccepted }

def receiveAll (ms : List (Reception S V)) : Session := ms.foldl receive s

/-- A session in which the guest was established has been accepted. -/
def Accepted : Prop := (∃ st ∈ s.transitions, st.established = true) → s.accepted = true

/-- The property of a sequence of messages: it holds after each of them. -/
def Trustworthy (ms : List (Reception S V)) : Prop :=
  ∀ pre, pre <+: ms → (s.receiveAll pre).Accepted

@[simp] theorem trustworthy_nil : s.Trustworthy ([] : List (Reception S V)) ↔ s.Accepted := by
  simp [Trustworthy, receiveAll]

theorem trustworthy_cons {m : Reception S V} {ms : List (Reception S V)} (hs : s.Accepted) :
    s.Trustworthy (m :: ms) ↔ (s.receive m).Trustworthy ms := by
  constructor
  · exact fun h pre hpre => h (m :: pre) (List.cons_prefix_cons.mpr ⟨rfl, hpre⟩)
  · intro h pre hpre
    rcases List.prefix_cons_iff.mp hpre with rfl | ⟨pre', rfl, hpre'⟩
    · exact hs
    · exact h pre' hpre'

variable {s}

/-- Once accepted, always trustworthy. -/
theorem trustworthy_of_accepted (ms : List (Reception S V)) (h : s.accepted = true) :
    s.Trustworthy ms := by
  induction ms generalizing s with
  | nil => exact s.trustworthy_nil.mpr fun _ => h
  | cons m ms ih =>
    refine (s.trustworthy_cons fun _ => h).mpr (ih ?_)
    simp [receive, h]

/-- A guest that closes before it is established is trustworthy. -/
theorem trustworthy_of_closed (ms : List (Reception S V)) (hc : s.connection.state = .closed)
    (hs : ∀ st ∈ s.transitions, st.established = false) : s.Trustworthy ms := by
  have hacc : s.Accepted := fun ⟨st, hst, he⟩ => absurd he (by simp [hs st hst])
  induction ms generalizing s with
  | nil => exact s.trustworthy_nil.mpr hacc
  | cons m ms ih =>
    have hr : (s.receive m).connection = s.connection ∧
        (s.receive m).transitions = s.transitions := by
      simp [receive, Connection.processReceive_closed hc]
    refine (s.trustworthy_cons hacc).mpr (ih (hr.1 ▸ hc) (hr.2 ▸ hs) ?_)
    exact fun ⟨st, hst, he⟩ => absurd he (by simp [hs st (hr.2 ▸ hst)])

end Session

/-! ## Responses -/

namespace Connection

variable {o : Owner S V} {c : Connection} {τ : Timepoint} {t : Transmission S V}

/-- **Any response** with the expected properties establishes the guest. -/
theorem processReceive_anyResponse {m : DotsMsgConnectResponse} (hc : c.state ≠ .closed)
    (he : c.expected = expectSystemType .handleAuthorizationRequest)
    (ht : t.instance_ = .connectResponse m) (hm : {5, 2, 3} ⊆ m.validProperties) :
    ∃ st ∈ (c.processReceive o τ t).1.transitions, st.established = true := by
  by_cases hpre : m.preload = some true
  · obtain ⟨r, hr, ha⟩ := processReceive_response (o := o) (τ := τ) hc he ht hm hpre
    exact ⟨.earlySubscribe, by simp [hr, ha.transitions], rfl⟩
  · rw [processReceive_expected hc he (by rw [ht]; rfl) (by simp [ht]) (by rw [ht]; rfl)
      (by rw [ht]; exact hm), ht]
    refine ⟨.connected, ?_, rfl⟩
    simp [Turn.callHandler, Turn.handleAuthorizationRequest, hpre, Turn.processError]

end Connection

/-! ## The condition -/

/-- A hello that the guest answers. -/
def Welcoming (credentials : Credentials) (x : AnyStruct S V) : Prop :=
  ∃ m, x = .hello m ∧ {1, 2} ⊆ m.validProperties ∧
    (m.authenticationRequired = some true → credentials.authSecret ≠ none)

/-- A response with the expected properties that does not accept the guest. -/
def Refusing (x : AnyStruct S V) : Prop :=
  ∃ m, x = .connectResponse m ∧ {5, 2, 3} ⊆ m.validProperties ∧ m.accepted = some false

/-- The host turns the guest away with its second message. -/
def Turned (credentials : Credentials) (ms : List (Reception S V)) : Prop :=
  ∃ hello response rest, ms = hello :: response :: rest ∧
    Welcoming credentials hello.transmission.instance_ ∧
    Refusing response.transmission.instance_

theorem eq_of_mem_validBit {α : Type} {t u : Tag} {p : Option α} (h : u ∈ validBit t p) :
    u = t := by
  unfold validBit at h
  split_ifs at h
  · exact Finset.mem_singleton.mp h
  · exact absurd h (Finset.notMem_empty _)

theorem accepted_ne_none {m : DotsMsgConnectResponse} (hm : {5, 2, 3} ⊆ m.validProperties) :
    m.accepted ≠ none := by
  intro hnone
  have h2 : (2 : Tag) ∈ m.validProperties := hm (by decide)
  simp only [DotsMsgConnectResponse.validProperties, Finset.mem_union] at h2
  rcases h2 with (((h2 | h2) | h2) | h2) | h2
  · exact absurd (eq_of_mem_validBit h2) (by decide)
  · simp [hnone, validBit] at h2
  all_goals exact absurd (eq_of_mem_validBit h2) (by decide)

namespace Session

/-- **The guest has sent its request.** -/
theorem trustworthy_response {s : Session} (ms : List (Reception S V))
    (hstate : s.connection.state = .connecting)
    (he : s.connection.expected = expectSystemType .handleAuthorizationRequest)
    (hs : ∀ st ∈ s.transitions, st.established = false) (hsent : s.connectSent = true)
    (hnot : s.accepted = false) :
    s.Trustworthy ms ↔
      ¬ ∃ response rest, ms = response :: rest ∧ Refusing response.transmission.instance_ := by
  have hacc : s.Accepted := fun ⟨st, hst, he⟩ => absurd he (by simp [hs st hst])
  have hopen : s.connection.state ≠ .closed := by simp [hstate]
  cases ms with
  | nil => simpa using hacc
  | cons m ms =>
    rw [s.trustworthy_cons hacc]
    by_cases hx : m.transmission.instance_.isSystem = true ∧
        m.transmission.instance_.typeName = "DotsMsgConnectResponse" ∧
        {5, 2, 3} ⊆ m.transmission.instance_.systemProperties
    · obtain ⟨hsys, hname, hprops⟩ := hx
      obtain ⟨x, hx⟩ := AnyStruct.eq_connectResponse hsys hname
      rw [hx] at hprops
      obtain ⟨st, hst, hest⟩ := Connection.processReceive_anyResponse (o := m.owner) (τ := m.now)
        hopen he hx hprops
      cases hok : x.accepted with
      | none => exact absurd hok (accepted_ne_none hprops)
      | some accepted =>
        cases accepted with
        | true =>
          refine iff_of_true (trustworthy_of_accepted ms ?_) ?_
          · simp [receive, hsent, hx, AnyStruct.isAccepted, hok]
          · rintro ⟨response, rest, hms, y, hy, -, hfalse⟩
            obtain ⟨rfl, -⟩ := List.cons.inj hms
            obtain rfl := AnyStruct.connectResponse.inj (hx.symm.trans hy)
            simp [hok] at hfalse
        | false =>
          refine iff_of_false (fun h => ?_) (not_not.mpr ⟨m, ms, rfl, x, hx, hprops, hok⟩)
          have hbad := h [] List.nil_prefix ⟨st, List.mem_append_right _ hst, hest⟩
          simp [receiveAll, receive, hnot, hx, AnyStruct.isAccepted, hok] at hbad
    · have hcl := Connection.processReceive_unexpected (o := m.owner) (τ := m.now) hopen
        (by rw [hstate]; rfl) he hx
      refine iff_of_true (trustworthy_of_closed ms hcl.1 ?_) ?_
      · intro st hst
        rcases List.mem_append.mp hst with hst | hst
        · exact hs st hst
        · rw [hcl.2.1] at hst
          exact List.mem_singleton.mp hst ▸ rfl
      · rintro ⟨response, rest, hms, y, hy, hprops, -⟩
        obtain ⟨rfl, -⟩ := List.cons.inj hms
        exact hx (by rw [hy]; exact ⟨rfl, rfl, hprops⟩)

/-- **The guest waits for the hello.** -/
theorem trustworthy_hello {s : Session} (ms : List (Reception S V))
    (hstate : s.connection.state = .connecting)
    (he : s.connection.expected = expectSystemType .handleHello)
    (hs : ∀ st ∈ s.transitions, st.established = false) (hsent : s.connectSent = false)
    (hnot : s.accepted = false) :
    s.Trustworthy ms ↔ ¬ Turned s.connection.credentials ms := by
  have hacc : s.Accepted := fun ⟨st, hst, he⟩ => absurd he (by simp [hs st hst])
  have hopen : s.connection.state ≠ .closed := by simp [hstate]
  cases ms with
  | nil =>
    rw [trustworthy_nil]
    exact iff_of_true hacc fun ⟨_, _, _, hms, _⟩ => by cases hms
  | cons m ms =>
    rw [s.trustworthy_cons hacc]
    by_cases hx : m.transmission.instance_.isSystem = true ∧
        m.transmission.instance_.typeName = "DotsMsgHello" ∧
        {1, 2} ⊆ m.transmission.instance_.systemProperties
    · obtain ⟨hsys, hname, hprops⟩ := hx
      obtain ⟨x, hx⟩ := AnyStruct.eq_hello hsys hname
      rw [hx] at hprops
      obtain ⟨r, m', hr, ha, -, -, hsecret⟩ | ⟨r, hr, hcl, hreq, hnone⟩ :=
        Connection.processReceive_hello (o := m.owner) (τ := m.now) hopen he hx hprops
      · have hwait : (s.receive m).Trustworthy ms ↔ ¬ ∃ response rest, ms = response :: rest ∧
            Refusing response.transmission.instance_ := by
          apply trustworthy_response
          · simp [receive, hr, ha.state, hstate]
          · simp [receive, hr, ha.expected]
          · simpa [receive, hr, ha.transitions] using hs
          · simp [receive, hr, ha.system_sent, AnyStruct.isConnect]
          · simp [receive, hnot, hsent]
        rw [hwait, not_iff_not]
        constructor
        · rintro ⟨response, rest, rfl, href⟩
          exact ⟨m, response, rest, rfl, ⟨x, hx, hprops, hsecret⟩, href⟩
        · rintro ⟨hello, response, rest, hms, -, href⟩
          exact ⟨response, rest, (List.cons.inj hms).2, href⟩
      · refine iff_of_true (trustworthy_of_closed ms (by simp [receive, hr, hcl.1]) ?_) ?_
        · intro st hst
          rcases List.mem_append.mp hst with hst | hst
          · exact hs st hst
          · rw [hr, hcl.2.1] at hst
            exact List.mem_singleton.mp hst ▸ rfl
        · rintro ⟨hello, response, rest, hms, ⟨y, hy, -, hsecret⟩, -⟩
          obtain ⟨rfl, -⟩ := List.cons.inj hms
          obtain rfl := AnyStruct.hello.inj (hx.symm.trans hy)
          exact hsecret hreq hnone
    · have hcl := Connection.processReceive_unexpected (o := m.owner) (τ := m.now) hopen
        (by rw [hstate]; rfl) he hx
      refine iff_of_true (trustworthy_of_closed ms hcl.1 ?_) ?_
      · intro st hst
        rcases List.mem_append.mp hst with hst | hst
        · exact hs st hst
        · rw [hcl.2.1] at hst
          exact List.mem_singleton.mp hst ▸ rfl
      · rintro ⟨hello, response, rest, hms, ⟨y, hy, hprops, -⟩, -⟩
        obtain ⟨rfl, -⟩ := List.cons.inj hms
        exact hx (by rw [hy]; exact ⟨rfl, rfl, hprops⟩)

end Session

/-! ## From the start of the guest -/

/-- The session of a guest that has been started. -/
def Session.start (o : Owner S V) (now : Timepoint) (name : String) (credentials : Credentials)
    (names : String → PropertySet → List String) : Option Session :=
  ((Connection.guest credentials names).asyncReceive o now name none).map fun r =>
    { connection := r.connection, transitions := r.transitions }

/-- **A guest is let in only if the host accepted it**, exactly unless the host turns it away with
its second message. -/
theorem trustworthy_iff (o : Owner S V) (τ : Timepoint) (name : String)
    (credentials : Credentials) (names : String → PropertySet → List String)
    (ms : List (Reception S V)) (s : Session)
    (hs : Session.start o τ name credentials names = some s) :
    s.Trustworthy ms ↔ ¬ Turned credentials ms := by
  simp only [Session.start, Connection.asyncReceive, Connection.guest] at hs
  obtain rfl := Option.some.inj hs
  refine Session.trustworthy_hello ms rfl rfl ?_ rfl rfl
  intro st hst
  exact List.mem_singleton.mp hst ▸ rfl

/-- A handshake message of the host, as it arrives. -/
def hostReception (x : AnyStruct testSchema ℕ) : Reception testSchema ℕ :=
  ⟨.silent, 0, .ofInstance x x.systemProperties 0 false⟩

/-- What the host of this implementation sends to a guest it does not accept, and then what it
sends to one it does. -/
def refusal : List (Reception testSchema ℕ) :=
  [hostReception (.hello ⟨some "dotsd", some 7, none⟩),
    hostReception (.connectResponse
      { clientId := some 2, accepted := some false, preload := some true }),
    hostReception (.connectResponse { preloadFinished := some true })]

theorem trustworthy_iff_refusal :
    ∃ s, Session.start (Owner.silent : Owner testSchema ℕ) 0 "guest" ⟨none, "", fun _ _ _ _ => ""⟩
        (fun _ _ => []) = some s ∧
      (s.Trustworthy refusal ↔ ¬ Turned ⟨none, "", fun _ _ _ _ => ""⟩ refusal) :=
  ⟨_, rfl, trustworthy_iff .silent 0 "guest" _ _ refusal _ rfl⟩

/-- **A guest that is turned away connects.** -/
theorem refused_guest_connects :
    ∃ s, Session.start (Owner.silent : Owner testSchema ℕ) 0 "guest" ⟨none, "", fun _ _ _ _ => ""⟩
        (fun _ _ => []) = some s ∧
      (s.receiveAll refusal).connection.state = .connected ∧
      (s.receiveAll refusal).accepted = false ∧ ¬ s.Trustworthy refusal :=
  ⟨_, rfl, rfl, rfl, fun h => Bool.noConfusion
    (h refusal List.prefix_rfl ⟨.earlySubscribe, by decide, rfl⟩)⟩

end Dots
