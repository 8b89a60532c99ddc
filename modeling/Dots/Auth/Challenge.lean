import Dots.Auth.Verdict
import Dots.Text.Scan
import Dots.Tools.Form

/-!
# The challenge

A host decides whether to challenge a guest before it knows the name of the guest.

* `AuthEnv.CollisionFree`: a digest tells its nonce and its secret.
* `AuthEnv.AddressTexts`: the texts of addresses; **`address_ofSocket_v4`**,
  **`address_ofSocket_v6`**: the host of an endpoint has no brackets.
* `Challenged`: what a guest that is verified by a secret needs of the greeting.
* `compares_iff`, `requiresAuthentication_iff`: the two decisions, in terms of the rules.
* **`challenge_iff`**: when they agree; `throws_v6`.
-/

set_option autoImplicit false
set_option linter.unusedSectionVars false

namespace Dots

variable {A : AuthSchema} {V : Type} [AuthValue V] {D : Type} [DecidableEq D]

/-- A digest tells its nonce, which has 64 bits, and for a given guest its secret, and it is read
back from its text. -/
structure AuthEnv.CollisionFree (env : AuthEnv D) : Prop where
  ofString_toString : ∀ d, env.ofString (env.toString d) = .ok d
  nonce_eq : ∀ n n' cnonce cnonce' userName userName' secret secret', n < 2 ^ 64 → n' < 2 ^ 64 →
    env.digest n cnonce userName secret = env.digest n' cnonce' userName' secret' → n = n'
  secret_eq : ∀ n cnonce userName secret secret',
    env.digest n cnonce userName secret = env.digest n cnonce userName secret' → secret = secret'

open LegacyAuthManager

/-! ## The address of a guest -/

/-- What asio documents about the texts of addresses: they are read back, an IPv4 address is
dotted, and an IPv6 address has groups of digits between colons, which are no addresses. -/
structure AuthEnv.AddressTexts (env : AuthEnv D) : Prop where
  makeAddress_text : ∀ address, env.makeAddress (env.addressText address) = .ok address
  toNat_lt : ∀ address, ∀ c ∈ (env.addressText address).toList, c.toNat < 128
  v4 : ∀ address, Undelimited (ascii (env.addressText (.v4 address)))
  v6 : ∀ address, ∃ group rest, env.addressText (.v6 address) = group ++ ":" ++ rest ∧
    '.' ∉ group.toList ∧ Undelimited (ascii group) ∧ ∀ b ∈ ascii rest, b ∉ ascii "/@[]"
  makeAddress_group : ∀ text : String, '.' ∉ text.toList → ':' ∉ text.toList →
    ∃ what, env.makeAddress text = .error what

namespace Endpoint

variable {env : AuthEnv D} {scheme : String} {port : ℕ} {e : Endpoint}

/-- A text of ASCII characters is the text of its bytes. -/
theorem hostText_of_host {text : String} (h : ∀ c ∈ text.toList, c.toNat < 128)
    (hhost : e.texts.host = ascii text) : e.hostText = text := by
  have hid : ∀ c ∈ text.toList, Char.ofNat (UInt8.ofNat c.toNat).toNat = c := by
    intro c hc
    have hlt := h c hc
    rw [UInt8.toNat_ofNat', Nat.mod_eq_of_lt (by omega), Char.ofNat_toNat]
  rw [hostText, hhost, ascii, List.map_map]
  exact (congrArg String.ofList (List.map_congr_left hid)).trans (by simp)

/-- The host of the endpoint of a socket is what is before the first colon. -/
theorem host_ofSocket {address : Address} {host : String} (rest : List UInt8)
    (hscheme : scheme = "tcp" ∨ scheme = "ws") (hhost : Undelimited (ascii host))
    (hrest : ∀ b ∈ rest, b ∉ ascii "/@")
    (htext : ascii (env.addressText address) ++ ascii ":" = ascii host ++ 0x3A :: rest)
    (he : ofSocket env scheme address port = .ok e) :
    hasRules e ∧ e.texts.host = ascii host := by
  have hport : ∀ b ∈ rest ++ toChars 10 port, b ∉ ascii "/@" := by
    intro b hb
    rcases List.mem_append.mp hb with hb | hb
    · exact hrest b hb
    · have hall : ∀ b ∈ ascii "-" ++ ascii "0123456789", b ∉ ascii "/@" := by decide +kernel
      exact hall b (mem_toChars (by omega) le_rfl _ b hb)
  have hvalid : ascii scheme ≠ [] ∧ Undelimited (ascii scheme) := by
    rcases hscheme with rfl | rfl
    · exact ⟨by decide, by unfold Undelimited; decide +kernel⟩
    · exact ⟨by decide, by unfold Undelimited; decide +kernel⟩
  have hread := read_socket hvalid hhost (rest ++ toChars 10 port)
    (fun hb => hport _ hb (by decide)) (fun hb => hport _ hb (by decide))
  have hstr : ascii scheme ++ ascii "://" ++ ascii (env.addressText address) ++ ascii ":" ++
      toChars 10 port =
      ascii scheme ++ ascii "://" ++ (ascii host ++ 0x3A :: (rest ++ toChars 10 port)) := by
    rw [List.append_assoc (ascii scheme ++ ascii "://"), htext]
    simp
  rw [ofSocket, hstr, ofString] at he
  rw [← Uri.parts_ofString] at hread
  cases hu : Uri.ofString (ascii scheme ++ ascii "://" ++
      (ascii host ++ 0x3A :: (rest ++ toChars 10 port))) with
  | error what =>
    rw [hu] at he
    cases he
  | ok u =>
    rw [hu] at he hread
    obtain rfl : Endpoint.mk u = e := Except.ok.inj he
    have hparts : u.parts = _ := Option.some.inj hread
    have hs : u.texts.scheme = ascii scheme := congrArg UriParts.scheme hparts
    refine ⟨?_, congrArg UriParts.host hparts⟩
    rcases hscheme with rfl | rfl
    · exact .inl hs
    · exact .inr hs

/-- **The address of an IPv4 guest** is read from its endpoint. -/
theorem address_ofSocket_v4 (henv : env.AddressTexts) (hscheme : scheme = "tcp" ∨ scheme = "ws")
    {address : BitVec 32} (he : ofSocket env scheme (.v4 address) port = .ok e) :
    hasRules e ∧ e.address env = .ok (.v4 address) := by
  obtain ⟨hrules, hhost⟩ := host_ofSocket [] hscheme (henv.v4 address)
    (fun _ hb => absurd hb List.not_mem_nil) rfl he
  refine ⟨hrules, ?_⟩
  rw [Endpoint.address, hostText_of_host (henv.toNat_lt _) hhost]
  exact henv.makeAddress_text _

/-- **The address of an IPv6 guest** is not: its text is in no brackets, so that the host ends at
the first colon. -/
theorem address_ofSocket_v6 (henv : env.AddressTexts) (hscheme : scheme = "tcp" ∨ scheme = "ws")
    {address : BitVec 128} (he : ofSocket env scheme (.v6 address) port = .ok e) :
    hasRules e ∧ ∃ what, e.address env = .error what := by
  obtain ⟨group, rest, htext, hdot, hgroup, hrest⟩ := henv.v6 address
  have hlt := henv.toNat_lt (.v6 address)
  rw [htext] at hlt
  simp only [String.toList_append, List.mem_append] at hlt
  have htail : ∀ b ∈ ascii rest ++ ascii ":", b ∉ ascii "/@" := by
    have hdelimiter : ∀ b ∈ ascii "/@", b ∈ ascii "/@[]" ∧ b ≠ 0x3A := by decide +kernel
    intro b hb hmem
    rcases List.mem_append.mp hb with hb | hb
    · exact hrest b hb (hdelimiter b hmem).1
    · exact (hdelimiter b hmem).2 (List.mem_singleton.mp hb)
  obtain ⟨hrules, hhost⟩ :=
    host_ofSocket (ascii rest ++ ascii ":") hscheme hgroup htail (by simp [htext, ascii]) he
  refine ⟨hrules, ?_⟩
  rw [Endpoint.address, hostText_of_host (fun c hc => hlt c (.inl (.inl hc))) hhost]
  refine henv.makeAddress_group group hdot fun hcolon => ?_
  exact hgroup.notMem (b := 0x3A) (by decide) (List.mem_map.mpr ⟨':', hcolon, rfl⟩)

end Endpoint

/-! ## What the guest needs -/

namespace DotsAuthentication

variable (rule : DotsAuthentication A V)

def acceptsWithSecret : Bool := rule.secret.isSome && rule.accept == some true

/-- A guest that knows the secret stops here. -/
def stopsHolder (secret : String) : Bool := rule.accept.isSome && rule.secret.all (· == secret)

end DotsAuthentication

open DotsAuthentication

/-- The credentials of a guest that knows a secret. -/
def honestCredentials (env : AuthEnv D) (secret cnonce : String) : Credentials where
  authSecret := some secret
  cnonce
  digest nonce cnonce userName secret := env.toString (env.digest nonce cnonce userName secret)

/-- The answer of a guest that knows a secret. -/
def honestConnect (env : AuthEnv D) (nonce : ℕ) (userName secret cnonce : String) :
    DotsMsgConnect where
  clientName := some userName
  preloadCache := some true
  authChallengeResponse := some (env.toString (env.digest nonce cnonce userName secret))
  cnonce := some cnonce

/-- The greeting that asks for authentication. -/
def challengingHello (serverName : String) (nonce : ℕ) : DotsMsgHello :=
  { serverName := some serverName, authChallenge := some nonce
    authenticationRequired := some true }

/-- What a verification by a secret needs of the turn `r` in which a host greets the guest. -/
structure Challenged (env : AuthEnv D) (m : LegacyAuthManager A V) (remoteEndpoint : Endpoint)
    (o : Owner A.toSchema V) (r : Turn A.toSchema V) (serverName guestName : String)
    (nonce : ℕ) : Prop where
  asks : ∃ t ∈ r.sent, t.instance_ = .hello (challengingHello serverName nonce)
  /-- The verification is given the nonce of the greeting. -/
  given : ∀ connect, r.authenticate connect =
    m.verifyAnswer env remoteEndpoint (connect.clientName.getD "") nonce
      (connect.cnonce.getD "") (connect.authChallengeResponse.getD "")
  /-- A guest that knows the secret of the first rule that accepts with one is accepted. -/
  honest : ∀ address rule secret cnonce (guest : Connection) (now : Timepoint),
    remoteEndpoint.address env = .ok address →
    (m.findMatchingRules env address guestName).find? acceptsWithSecret = some rule →
    rule.secret = some secret → guest.selfName = guestName →
    guest.credentials = honestCredentials env secret cnonce →
    ∃ connect, (({ connection := guest } : Turn A.toSchema V).handleHello now
        (challengingHello serverName nonce)).1.sent =
        [.ofInstance (.connect connect) connect.validProperties now false] ∧
      (r.handleConnect o now connect).2 = none
  /-- A response recorded in a connection with another nonce is not accepted. -/
  replayed : ∀ nonce' cnonce' userName secret (connect : DotsMsgConnect) (now : Timepoint),
    nonce' < 2 ^ 64 → nonce' ≠ nonce → connect.clientName = some guestName →
    connect.authChallengeResponse =
      some (env.toString (env.digest nonce' cnonce' userName secret)) →
    (r.handleConnect o now connect).2 ≠ none

namespace LegacyAuthManager

variable {env : AuthEnv D} {m : LegacyAuthManager A V} {remoteEndpoint : Endpoint}
variable {address : Address} {guestName : String} {nonce : ℕ}

/-- **An answer is compared with a secret** if the address of the guest can be read and the rules
for the guest are locked. -/
theorem compares_iff (hcf : env.CollisionFree) (cnonce : String) (response : D) :
    (m.verifyAuthentication env remoteEndpoint guestName nonce cnonce response).1 ≠ [] ↔
      hasRules remoteEndpoint ∧ ∃ address, remoteEndpoint.address env = .ok address ∧
        isLocked (m.findMatchingRules env address guestName) = true := by
  unfold verifyAuthentication
  split_ifs with h h'
  · cases ha : remoteEndpoint.address env with
    | error what => simp
    | ok address =>
      simp only [verifyResponse, h, true_and, Except.ok.injEq, exists_eq_left']
      exact compared_of_readable rfl rfl (hcf.ofString_toString response) _
  · simp [h]
  · simp [h]

/-- **A guest is asked** if the first rule that accepts guests of every name has a secret. -/
theorem requiresAuthentication_iff :
    m.requiresAuthentication env address = true ↔
      ((m.findMatchingRules env address "").find? fun rule => rule.accept == some true).any
        (fun rule => rule.secret.isSome) = true := by
  unfold requiresAuthentication
  cases (m.findMatchingRules env address "").find? fun rule => rule.accept == some true <;> simp

theorem challenge_of_hasRules (m : LegacyAuthManager A V) (nonce : ℕ) (h : hasRules remoteEndpoint)
    (ha : remoteEndpoint.address env = .ok address) :
    m.challenge env remoteEndpoint nonce =
      .ok (if m.requiresAuthentication env address then some nonce else none) := by
  rw [challenge, if_pos h, ha]

/-- The verdict on a response text that is a digest. -/
theorem verifyAnswer_digest (hcf : env.CollisionFree) (h : hasRules remoteEndpoint)
    (ha : remoteEndpoint.address env = .ok address) (n : ℕ) (cnonce : String) (d : D) :
    m.verifyAnswer env remoteEndpoint guestName n cnonce (env.toString d) =
      .ok (((((m.findMatchingRules env address guestName).find?
        (answers env · n cnonce guestName d)).bind accept) <|> m.defaultAcceptPolicy).getD
          true) := by
  have hv : m.verifyAnswer env remoteEndpoint guestName n cnonce (env.toString d) =
      (m.verifyAuthentication env remoteEndpoint guestName n cnonce d).2 := by
    simp only [verifyAnswer, hcf.ofString_toString]
  rw [hv, verifyAuthentication, if_pos h, ha]
  exact verifyResponse_of_readable rfl rfl rfl (hcf.ofString_toString d)

/-- A guest that answers with a secret is judged by the first rule that stops its holder. -/
theorem find?_answers_of_holder (hcf : env.CollisionFree) (cnonce secret : String)
    (rules : List (DotsAuthentication A V)) :
    rules.find? (answers env · nonce cnonce guestName
      (env.digest nonce cnonce guestName secret)) = rules.find? (stopsHolder · secret) := by
  congr 1
  funext rule
  have heq (other : String) : decide (env.digest nonce cnonce guestName secret =
      env.digest nonce cnonce guestName other) = (other == secret) := by
    rw [Bool.eq_iff_iff, decide_eq_true_iff, beq_iff_eq]
    exact ⟨fun h => (hcf.secret_eq _ _ _ _ _ h).symm, fun h => h ▸ rfl⟩
  simp [answers, stopsHolder, heq]

end LegacyAuthManager

/-! ## The connection of the host -/

section Host

variable {env : AuthEnv D} {m : LegacyAuthManager A V} {remoteEndpoint : Endpoint}
variable {o : Owner A.toSchema V} {c : Connection} {r : Turn A.toSchema V} {τ : Timepoint}
variable {address : Address} {serverName guestName : String} {nonce : ℕ}

/-- The greeting of a host. -/
def greetingHello (serverName : String) : Option ℕ → DotsMsgHello
  | none => { serverName := some serverName, authChallenge := some 0 }
  | some nonce => challengingHello serverName nonce

/-- A connection starts if the address can be read, and greets. -/
theorem asyncReceive_ok (o : Owner A.toSchema V) (τ : Timepoint) (serverName : String)
    {requires : Option ℕ} (hhost : c.selfId = hostId)
    (hc : m.challenge env remoteEndpoint nonce = .ok requires) (hs : c.state = .suspended) :
    ∃ r, m.asyncReceive env o c τ serverName remoteEndpoint nonce = .ok r ∧
      r.connection.authManager = some ⟨requires, m.verifyAnswer env remoteEndpoint⟩ ∧
      r.connection.nonce = requires ∧
      ∃ attributes, r.sent = o.onTransition .connecting ++
        [.ofInstance (.hello (greetingHello serverName requires)) attributes τ false] := by
  simp only [LegacyAuthManager.asyncReceive, authManager, hc, Except.toOption,
    Connection.asyncReceive, hs, hhost, Option.bind_some, if_true, ne_eq, not_true_eq_false,
    if_false]
  cases requires with
  | none => exact ⟨_, rfl, rfl, rfl, _, rfl⟩
  | some n => exact ⟨_, rfl, rfl, rfl, _, rfl⟩

/-- A host asks a guest with its greeting only. -/
theorem asks_iff {requires : Option ℕ} {attributes : PropertySet}
    (hsent : r.sent = o.onTransition .connecting ++
      [.ofInstance (.hello (greetingHello serverName requires)) attributes τ false]) :
    (∃ t ∈ r.sent, t.instance_ = .hello (challengingHello serverName nonce)) ↔
      requires = some nonce := by
  have hown : ∀ t ∈ o.onTransition .connecting,
      t.instance_ ≠ .hello (challengingHello serverName nonce) := by
    intro t ht he
    have := o.onTransition_isSystem .connecting t ht
    rw [he] at this
    exact Bool.noConfusion this
  have hgreet : (∃ t ∈ r.sent, t.instance_ = .hello (challengingHello serverName nonce)) ↔
      greetingHello serverName requires = challengingHello serverName nonce := by
    rw [hsent]
    constructor
    · rintro ⟨t, ht, he⟩
      rcases List.mem_append.mp ht with ht | ht
      · exact absurd he (hown t ht)
      · rw [List.mem_singleton.mp ht] at he
        exact AnyStruct.hello.inj he
    · intro h
      exact ⟨_, List.mem_append_right _ (List.mem_singleton.mpr rfl), congrArg _ h⟩
  rw [hgreet]
  cases requires <;> simp [greetingHello, challengingHello]

theorem handleConnect_error_iff {connect : DotsMsgConnect} :
    (r.handleConnect o τ connect).2 = none ↔ r.authenticate connect = .ok true := by
  unfold Turn.handleConnect
  cases r.authenticate connect with
  | error what => simp
  | ok b => cases b <;> simp

theorem handleHello_honest {guest : Connection} {secret cnonce : String}
    (hn : guest.selfName = guestName)
    (hc : guest.credentials = honestCredentials env secret cnonce) {connect : DotsMsgConnect} :
    (({ connection := guest } : Turn A.toSchema V).handleHello τ
        (challengingHello serverName nonce)).1.sent =
        [.ofInstance (.connect connect) connect.validProperties τ false] ↔
      connect = honestConnect env nonce guestName secret cnonce := by
  simp only [Turn.handleHello, challengingHello, if_true, hc, hn, honestCredentials, Turn.transmit,
    Turn.expect, List.nil_append, List.cons.injEq, and_true, Option.getD_some]
  constructor
  · intro h
    exact (AnyStruct.connect.inj (congrArg Transmission.instance_ h)).symm
  · rintro rfl
    rfl

/-- **What a challenge needs of the rules**: that the first rule that accepts guests of every name
has a secret, that the holder of the secret is accepted by the first rule at which it stops, and
that no other way is open. -/
theorem challenged_iff (hcf : env.CollisionFree) (hrules : hasRules remoteEndpoint)
    (ha : remoteEndpoint.address env = .ok address) (hnonce : nonce < 2 ^ 64)
    (hhost : c.selfId = hostId) (hs : c.state = .suspended) :
    (∃ r, m.asyncReceive env o c τ serverName remoteEndpoint nonce = .ok r ∧
      Challenged env m remoteEndpoint o r serverName guestName nonce) ↔
      (((m.findMatchingRules env address "").find? fun rule => rule.accept == some true).any
        (fun rule => rule.secret.isSome) = true) ∧
      (∀ rule secret, (m.findMatchingRules env address guestName).find? acceptsWithSecret =
        some rule → rule.secret = some secret →
        ((m.findMatchingRules env address guestName).find? (stopsHolder · secret)).bind accept =
          some true) ∧
      m.isOpenFor env address guestName = false := by
  obtain ⟨r, hr, hmanager, hkept, attributes, hsent⟩ :=
    asyncReceive_ok o τ serverName hhost (challenge_of_hasRules m nonce hrules ha) hs
  set rules := m.findMatchingRules env address guestName with hdef
  have hasked : (∃ t ∈ r.sent, t.instance_ = .hello (challengingHello serverName nonce)) ↔
      m.requiresAuthentication env address = true := by
    rw [asks_iff hsent]
    cases m.requiresAuthentication env address <;> simp
  rw [← requiresAuthentication_iff, ← hasked]
  -- what an answer to the challenge meets
  have hauth (hask : m.requiresAuthentication env address = true)
      (connect : DotsMsgConnect) : r.authenticate connect =
        m.verifyAnswer env remoteEndpoint (connect.clientName.getD "") nonce
          (connect.cnonce.getD "") (connect.authChallengeResponse.getD "") := by
    simp only [Turn.authenticate, hmanager, hkept, hask, if_true, Option.getD_some]
  have hverdict (hask : m.requiresAuthentication env address = true)
      (connect : DotsMsgConnect) (d : D) (hname : connect.clientName = some guestName)
      (hresp : connect.authChallengeResponse = some (env.toString d)) :
      r.authenticate connect =
        .ok ((((rules.find? (answers env · nonce (connect.cnonce.getD "") guestName d)).bind
          accept) <|> m.defaultAcceptPolicy).getD true) := by
    rw [hauth hask, hname, hresp]
    exact verifyAnswer_digest hcf hrules ha _ _ _
  have hhonest (hask : m.requiresAuthentication env address = true)
      (rule : DotsAuthentication A V) (secret cnonce : String)
      (hf : rules.find? acceptsWithSecret = some rule) (hs : rule.secret = some secret) :
      r.authenticate (honestConnect env nonce guestName secret cnonce) = .ok true ↔
        (rules.find? (stopsHolder · secret)).bind accept = some true := by
    have hcnonce : (honestConnect env nonce guestName secret cnonce).cnonce.getD "" = cnonce := rfl
    rw [hverdict hask _ _ rfl rfl, hcnonce, find?_answers_of_holder hcf]
    have haccept : rule.accept = some true := by
      have := List.find?_some hf
      simpa [acceptsWithSecret, hs] using this
    have hstop : (rules.find? (stopsHolder · secret)).isSome = true :=
      List.find?_isSome.mpr ⟨rule, List.mem_of_find?_eq_some hf, by
        simp [stopsHolder, hs, haccept]⟩
    obtain ⟨first, hfirst⟩ := Option.isSome_iff_exists.mp hstop
    have hsome : first.accept.isSome = true := by
      have := List.find?_some hfirst
      simp only [stopsHolder, Bool.and_eq_true] at this
      exact this.1
    obtain ⟨b, hb⟩ := Option.isSome_iff_exists.mp hsome
    simp [hfirst, hb]
  have hreplay (hask : m.requiresAuthentication env address = true)
      (nonce' : ℕ) (cnonce' userName secret : String) (connect : DotsMsgConnect)
      (hlt : nonce' < 2 ^ 64) (hne : nonce' ≠ nonce) (hname : connect.clientName = some guestName)
      (hresp : connect.authChallengeResponse =
        some (env.toString (env.digest nonce' cnonce' userName secret))) :
      r.authenticate connect = .ok (m.isOpenFor env address guestName) := by
    rw [hverdict hask connect _ hname hresp, find?_answers_of_wrong]
    · rfl
    · intro rule _ secret' _ he
      exact hne (hcf.nonce_eq _ _ _ _ _ _ _ _ hlt hnonce he)
  constructor
  · rintro ⟨r', hr', h⟩
    obtain rfl : r = r' := Except.ok.inj (hr.symm.trans hr')
    have hask := hasked.mp h.asks
    refine ⟨h.asks, fun rule secret hf hs => ?_, ?_⟩
    · obtain ⟨connect, hconnect, hacc⟩ := h.honest address rule secret ""
        { selfId := 0, peerId := 0, selfName := guestName
          credentials := honestCredentials env secret "" } 0 ha hf hs rfl rfl
      rw [(handleHello_honest rfl rfl).mp hconnect, handleConnect_error_iff] at hacc
      exact (hhonest hask rule secret "" hf hs).mp hacc
    · obtain ⟨nonce', hlt, hne⟩ : ∃ n, n < 2 ^ 64 ∧ n ≠ nonce := by
        by_cases h0 : nonce = 0
        · exact ⟨1, by omega, by omega⟩
        · exact ⟨0, by omega, by omega⟩
      have hrej := h.replayed nonce' "" "" ""
        { clientName := some guestName
          authChallengeResponse := some (env.toString (env.digest nonce' "" "" "")) } 0 hlt hne
        rfl rfl
      rw [Ne, handleConnect_error_iff, hreplay hask nonce' "" "" "" _ hlt hne rfl rfl] at hrej
      simpa using hrej
  · rintro ⟨hasks, hh, hclosed⟩
    have hask := hasked.mp hasks
    refine ⟨r, hr, hasks, hauth hask, fun address' rule secret cnonce guest τ' ha' hf hs hn hc => ?_,
      fun nonce' cnonce' userName secret connect τ' hlt hne hname hresp => ?_⟩
    · obtain rfl : address = address' := Except.ok.inj (ha.symm.trans ha')
      refine ⟨_, (handleHello_honest hn hc).mpr rfl, handleConnect_error_iff.mpr ?_⟩
      exact (hhonest hask rule secret cnonce hf hs).mpr (hh rule secret hf hs)
    · rw [Ne, handleConnect_error_iff, hreplay hask nonce' cnonce' userName secret connect hlt hne
        hname hresp, hclosed]
      simp

/-- **The challenge is asked when it is needed**, exactly if the rules for the guest and the rules
for guests of every name agree on it; otherwise a guest is verified by a secret it was never asked
for. Where no address can be read from the endpoint, nothing is compared. -/
theorem challenge_iff (hcf : env.CollisionFree) (hnonce : nonce < 2 ^ 64)
    (hhost : c.selfId = hostId) (hs : c.state = .suspended) :
    ((∃ n cnonce response,
        (m.verifyAuthentication env remoteEndpoint guestName n cnonce response).1 ≠ []) →
      ∃ r, m.asyncReceive env o c τ serverName remoteEndpoint nonce = .ok r ∧
        Challenged env m remoteEndpoint o r serverName guestName nonce) ↔
    (hasRules remoteEndpoint → ∀ address, remoteEndpoint.address env = .ok address →
      isLocked (m.findMatchingRules env address guestName) = true →
      (((m.findMatchingRules env address "").find? fun rule => rule.accept == some true).any
        (fun rule => rule.secret.isSome) = true) ∧
      (∀ rule secret, (m.findMatchingRules env address guestName).find? acceptsWithSecret =
        some rule → rule.secret = some secret →
        ((m.findMatchingRules env address guestName).find? (stopsHolder · secret)).bind accept =
          some true) ∧
      m.isOpenFor env address guestName = false) := by
  have hcompares : (∃ n cnonce response,
      (m.verifyAuthentication env remoteEndpoint guestName n cnonce response).1 ≠ []) ↔
      hasRules remoteEndpoint ∧ ∃ address, remoteEndpoint.address env = .ok address ∧
        isLocked (m.findMatchingRules env address guestName) = true := by
    constructor
    · rintro ⟨n, cnonce, response, h⟩
      exact (compares_iff hcf cnonce response).mp h
    · intro h
      exact ⟨0, "", env.digest 0 "" "" "", (compares_iff hcf _ _).mpr h⟩
  rw [hcompares, and_imp, exists_imp]
  refine forall_congr' fun hrules => forall_congr' fun address => ?_
  rw [and_imp]
  refine forall_congr' fun ha => forall_congr' fun _ => ?_
  exact challenged_iff hcf hrules ha hnonce hhost hs

/-- **A guest with an IPv6 address** is neither greeted nor verified. -/
theorem throws_v6 (henv : env.AddressTexts) {scheme : String}
    (hscheme : scheme = "tcp" ∨ scheme = "ws") {v6 : BitVec 128} {port : ℕ}
    (he : Endpoint.ofSocket env scheme (.v6 v6) port = .ok remoteEndpoint)
    (hhost : c.selfId = hostId) (hs : c.state = .suspended) :
    ∃ what, m.asyncReceive env o c τ serverName remoteEndpoint nonce = .error what ∧
      ∀ n cnonce response,
        m.verifyAuthentication env remoteEndpoint guestName n cnonce response = ([], .error what) := by
  obtain ⟨hrules, what, ha⟩ := Endpoint.address_ofSocket_v6 henv hscheme he
  refine ⟨what, ?_, fun n cnonce response => ?_⟩
  · simp only [LegacyAuthManager.asyncReceive, authManager, challenge, if_pos hrules, ha,
      Except.toOption, Connection.asyncReceive, hs, hhost, Option.bind_none, if_true, ne_eq,
      not_true_eq_false, if_false]
  · rw [verifyAuthentication, if_pos hrules, ha]

end Host

/-! ## A rule for guests of one name -/

theorem replicate_append_inj {a b : ℕ} {l l' : List Char}
    (h : List.replicate a 'n' ++ ':' :: l = List.replicate b 'n' ++ ':' :: l') : a = b := by
  induction a generalizing b with
  | zero =>
    cases b with
    | zero => rfl
    | succ b => simp [List.replicate_succ] at h
  | succ a ih =>
    cases b with
    | zero => simp [List.replicate_succ] at h
    | succ b =>
      simp only [List.replicate_succ, List.cons_append, List.cons.injEq, true_and] at h
      rw [ih h]

theorem testAuthEnv_collisionFree : testAuthEnv.CollisionFree where
  ofString_toString _ := rfl
  nonce_eq _ _ _ _ _ _ _ _ _ _ h := replicate_append_inj (String.ofList_injective h)
  secret_eq _ _ _ _ _ h := by
    have h' := String.ofList_injective h
    simp only [List.append_cancel_left_eq, List.cons.injEq, true_and, String.toList_append] at h'
    exact String.toList_injective h'

/-- The connection of a host before it greets a guest. -/
def greeter : Connection := .host 2 fun _ _ => []

/-- The endpoint of a guest in `10.0.0.0/8`. -/
def testEndpoint : Endpoint := .mk (Uri.parse { uriStr := ascii "tcp://10.0.0.1:40000" }).1

/-- One rule, which accepts the guest `"1"` with a secret. -/
def namedRule : LegacyAuthManager testAuthSchema ℕ where
  rules := [(10, testRule 1 10 (some 7) (some 1))]
  defaultAcceptPolicy := some false

theorem testEndpoint_address : testEndpoint.address testAuthEnv = .ok testAddress := by
  rfl

theorem challenge_iff_lockedRule :
    Endpoint.ofSocket testAuthEnv "tcp" testAddress 40000 = .ok testEndpoint ∧
    ∃ r, (lockedRule (some false)).asyncReceive testAuthEnv .silent greeter 0 "dotsd" testEndpoint
        5 = .ok r ∧
      Challenged testAuthEnv (lockedRule (some false)) testEndpoint .silent r "dotsd" "1" 5 := by
  refine ⟨rfl, (challenge_iff (c := greeter) testAuthEnv_collisionFree (by decide) rfl rfl).mpr
    (fun _ address ha _ => ?_) ⟨5, "", "", by decide +kernel⟩⟩
  obtain rfl : testAddress = address := Except.ok.inj (testEndpoint_address.symm.trans ha)
  refine ⟨by decide +kernel, fun rule secret hf hs => ?_, by decide +kernel⟩
  have hall : (((lockedRule (some false)).findMatchingRules testAuthEnv testAddress
      "1").find? acceptsWithSecret).all (fun rule => rule.secret.all fun secret =>
        (((lockedRule (some false)).findMatchingRules testAuthEnv testAddress "1").find?
          (stopsHolder · secret)).bind accept == some true) = true := by decide +kernel
  simpa [hf, hs] using hall

/-- **A guest is verified by a secret it was not asked for**, where a rule is for its name. -/
theorem challenge_not_asked : ∃ r,
    namedRule.asyncReceive testAuthEnv .silent greeter 0 "dotsd" testEndpoint 5 = .ok r ∧
    (∃ n cnonce response,
      (namedRule.verifyAuthentication testAuthEnv testEndpoint "1" n cnonce response).1 ≠ []) ∧
    ¬ ∃ t ∈ r.sent, t.instance_ = .hello (challengingHello "dotsd" 5) := by
  refine ⟨_, rfl, ⟨0, "", "", by decide +kernel⟩, ?_⟩
  rintro ⟨t, ht, he⟩
  rw [List.mem_singleton.mp ht] at he
  exact absurd (AnyStruct.hello.inj he) (by decide +kernel)

end Dots
