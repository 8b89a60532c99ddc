import Dots.ContainerPool
import Dots.Connection.Model
import Dots.Tools.Uri

/-!
# Legacy authentication

* `Address`, `IpNetwork`: addresses and networks.
* `AuthSchema`: a space with the types `DotsAuthentication` and `DotsAuthenticationPolicy`.
* `Endpoint`: a URI, and `Endpoint.address`, which is read from its host.
* `LegacyAuthManager`: the rules in the order of their priorities, and the default policy.
* `findMatchingRules`, `requiresAuthentication`, `verifyResponse`, `verifyAuthentication`.
* `LegacyAuthManager.asyncReceive`: the connection of a host that has the manager.
* `handleDotsAuthentication`, `handleDotsAuthenticationPolicy`: the event handlers.
-/

set_option autoImplicit false
set_option linter.unusedSectionVars false

namespace Dots

/-! ## Networks -/

/-- `asio::ip::address`. -/
inductive Address
  | v4 (address : BitVec 32)
  | v6 (address : BitVec 128)
  deriving DecidableEq

/-- `asio::ip::network_v4` and `network_v6`. -/
structure Network (w : ℕ) where
  address : BitVec w
  prefixLength : ℕ
  deriving DecidableEq

namespace Network

variable {w : ℕ} (n other : Network w)

/-- The address with its host bits cleared. -/
def canonical : BitVec w := n.address &&& BitVec.allOnes w <<< (w - n.prefixLength)

/-- `is_subnet_of`, of a longer prefix. -/
def isSubnetOf : Bool :=
  decide (other.prefixLength < n.prefixLength) &&
    { n with prefixLength := other.prefixLength }.canonical == other.canonical

/-- The constructor, which throws if the prefix is too long. -/
def make (address : BitVec w) (prefixLength : ℕ) : Except String (Network w) :=
  if prefixLength ≤ w then .ok ⟨address, prefixLength⟩ else .error "prefix length too large"

end Network

/-- `tools::IpNetwork`. -/
inductive IpNetwork
  | v4 (network : Network 32)
  | v6 (network : Network 128)
  deriving DecidableEq

namespace IpNetwork

/-- The network of a single address. -/
def ofAddress : Address → IpNetwork
  | .v4 address => .v4 ⟨address, 32⟩
  | .v6 address => .v6 ⟨address, 128⟩

/-- The network of an address text, read by `asio::ip::make_address`, and a prefix length. -/
def ofString (makeAddress : String → Except String Address) (address : String)
    (prefixLength : ℕ) : Except String IpNetwork :=
  match makeAddress address with
  | .error what => .error what
  | .ok (.v4 address) => (Network.make address prefixLength).map .v4
  | .ok (.v6 address) => (Network.make address prefixLength).map .v6

def isStrictSubnetOf : IpNetwork → IpNetwork → Bool
  | .v4 n, .v4 other => n.isSubnetOf other
  | .v6 n, .v6 other => n.isSubnetOf other
  | _, _ => false

def isSubnetOf (n other : IpNetwork) : Bool := n.isStrictSubnetOf other || n == other

end IpNetwork

/-! ## Rules and policies -/

structure DotsNetwork where
  network : Option String
  prefix_ : Option ℕ
  deriving DecidableEq

def dotsAuthentication : StructDescriptor where
  name := "DotsAuthentication"
  propertyDescriptors := [
    { name := "nameSpace", tag := 1, isKey := true },
    { name := "network", tag := 2, isKey := true },
    { name := "clientName", tag := 3, isKey := true },
    { name := "priority", tag := 6, isKey := true },
    { name := "secret", tag := 4, isKey := false },
    { name := "accept", tag := 5, isKey := false }]
  cached := true
  internal := true
  cleanup := false
  substructOnly := false
  tags_nodup := by decide

def dotsAuthenticationPolicy : StructDescriptor where
  name := "DotsAuthenticationPolicy"
  propertyDescriptors := [
    { name := "nameSpace", tag := 1, isKey := true },
    { name := "accept", tag := 2, isKey := false }]
  cached := true
  internal := true
  cleanup := false
  substructOnly := false
  tags_nodup := by decide

/-- A space with the two types. -/
structure AuthSchema extends Schema where
  authentication : descriptor "DotsAuthentication" = dotsAuthentication
  policy : descriptor "DotsAuthenticationPolicy" = dotsAuthenticationPolicy

/-- How the values of properties read in the types of the two structs. -/
class AuthValue (V : Type) where
  string : V → String
  uint16 : V → ℕ
  bool : V → Bool
  network : V → DotsNetwork

variable (A : AuthSchema) (V : Type)

abbrev DotsAuthentication := Struct V (A.descriptor "DotsAuthentication")

abbrev DotsAuthenticationPolicy := Struct V (A.descriptor "DotsAuthenticationPolicy")

variable {A V} [AuthValue V]

namespace DotsAuthentication

variable (rule : DotsAuthentication A V)

def network : Option DotsNetwork := (rule.value 2).map AuthValue.network

def clientName : Option String := (rule.value 3).map AuthValue.string

def secret : Option String := (rule.value 4).map AuthValue.string

def accept : Option Bool := (rule.value 5).map AuthValue.bool

def priority : Option ℕ := (rule.value 6).map AuthValue.uint16

end DotsAuthentication

def DotsAuthenticationPolicy.accept (policy : DotsAuthenticationPolicy A V) : Option Bool :=
  (policy.value 2).map AuthValue.bool

/-- The value of a property, which throws if the property is invalid. -/
def propertyValue {α : Type} (name : String) : Option α → Except String α
  | some v => .ok v
  | none => .error ("property is expected to be valid but it is not: " ++ name)

/-- `StructDescriptor::copy`. -/
def Struct.copy {d : StructDescriptor} (x other : Struct V d) (includedProperties : PropertySet) :
    Struct V d where
  value t :=
    if t ∈ (x.validProperties ∪ other.validProperties) ∩ includedProperties then other.value t
    else x.value t
  value_eq_none t ht := by
    split_ifs
    · exact other.value_eq_none t ht
    · exact x.value_eq_none t ht

/-! ## The manager -/

/-- What the manager takes from elsewhere: the addresses of asio with their texts, the digest of a
response with its texts, and whether debug texts are logged. -/
structure AuthEnv (D : Type) where
  makeAddress : String → Except String Address
  addressText : Address → String
  digest : (nonce : ℕ) → (cnonce userName secret : String) → D
  ofString : String → Except String D
  toString : D → String
  logsDebug : Bool

/-- `io::Endpoint`. -/
structure Endpoint extends Uri

namespace Endpoint

variable {D : Type} (env : AuthEnv D)

def ofString (uriStr : List UInt8) : Except (List UInt8) Endpoint := (Uri.ofString uriStr).map .mk

/-- The endpoint of a socket: the address stands between the scheme and the port as it is. -/
def ofSocket (scheme : String) (address : Address) (port : ℕ) : Except (List UInt8) Endpoint :=
  ofString (ascii scheme ++ ascii "://" ++ ascii (env.addressText address) ++ ascii ":" ++
    toChars 10 port)

variable (e : Endpoint)

/-- The host as a `std::string`. -/
def hostText : String := .ofList (e.texts.host.map fun b => Char.ofNat b.toNat)

/-- `asio::ip::address::from_string` of the host. -/
def address : Except String Address := env.makeAddress e.hostText

end Endpoint

variable (A V) in
/-- `LegacyAuthManager`. The rules are a multimap, ordered by their priorities. -/
structure LegacyAuthManager where
  rules : List (ℕ × DotsAuthentication A V) := []
  defaultAcceptPolicy : Option Bool := none

namespace LegacyAuthManager

variable {D : Type} [DecidableEq D]
variable (env : AuthEnv D) (m : LegacyAuthManager A V)

/-- The condition in `findMatchingRules`, and what it or the debug text throws. -/
def ruleMatches (network : IpNetwork) (clientName : String) (rule : DotsAuthentication A V) :
    Except String Bool := do
  let name ← propertyValue "clientName" rule.clientName
  if name = "" ∨ name = clientName then
    let n ← propertyValue "network" rule.network
    let address ← propertyValue "network" n.network
    let prefix_ ← propertyValue "prefix" n.prefix_
    let other ← IpNetwork.ofString env.makeAddress address prefix_
    if network.isSubnetOf other then
      if env.logsDebug then
        let _ ← propertyValue "accept" rule.accept
      return true
    else return false
  else return false

/-- `findMatchingRules`: a rule that throws does not match. -/
def findMatchingRules (address : Address) (clientName : String) : List (DotsAuthentication A V) :=
  (m.rules.map Prod.snd).filter fun rule =>
    match ruleMatches env (.ofAddress address) clientName rule with
    | .ok b => b
    | .error _ => false

/-- Whether a guest from an address is asked. -/
def requiresAuthentication (address : Address) : Bool :=
  match (m.findMatchingRules env address "").find? fun rule => rule.accept == some true with
  | some rule => rule.secret.isSome
  | none => false

/-- The endpoints whose guests are judged by the rules. -/
def hasRules (remoteEndpoint : Endpoint) : Prop :=
  remoteEndpoint.texts.scheme = ascii "tcp" ∨ remoteEndpoint.texts.scheme = ascii "ws"

instance (remoteEndpoint : Endpoint) : Decidable (hasRules remoteEndpoint) :=
  inferInstanceAs (Decidable (_ ∨ _))

/-- The challenge for a guest, or what reading its address throws; `nonce` is what `Nonce{}`
generates. -/
def challenge (remoteEndpoint : Endpoint) (nonce : ℕ) : Except String (Option ℕ) :=
  if hasRules remoteEndpoint then
    match remoteEndpoint.address env with
    | .error what => .error what
    | .ok address => .ok (if m.requiresAuthentication env address then some nonce else none)
  else if remoteEndpoint.texts.scheme = ascii "uds" then .ok none
  else if m.defaultAcceptPolicy = some true then .ok none
  else .ok (some nonce)

/-- The loop of `verifyResponse`: the secrets that the response has been compared with, and the
value of `accept` at the end, or what a digest text throws. -/
def verifyRules (authNonce : ℕ) (clientName : String) (msgConnect : DotsMsgConnect) :
    List (DotsAuthentication A V) → List String × Except String (Option Bool)
  | [] => ([], .ok none)
  | rule :: rules =>
    match rule.secret with
    | some secret =>
      match msgConnect.authChallengeResponse, msgConnect.cnonce with
      | some authChallengeResponse, some cnonce =>
        match env.ofString authChallengeResponse with
        | .error what => ([], .error what)
        | .ok response =>
          let rest := verifyRules authNonce clientName msgConnect rules
          let expected := env.digest authNonce cnonce clientName secret
          if response = expected then
            match rule.accept with
            | some accept => ([secret], .ok (some accept))
            | none => (secret :: rest.1, rest.2)
          else (secret :: rest.1, rest.2)
      | _, _ => ([], .ok (some false))
    | none =>
      match rule.accept with
      | some accept => ([], .ok (some accept))
      | none => verifyRules authNonce clientName msgConnect rules

/-- `verifyResponse`, with the secrets that the response has been compared with. -/
def verifyResponse (address : Address) (authNonce : ℕ) (msgConnect : DotsMsgConnect) :
    List String × Except String Bool :=
  match msgConnect.clientName with
  | none => ([], (propertyValue "clientName" none))
  | some clientName =>
    let r := verifyRules env authNonce clientName msgConnect
      (m.findMatchingRules env address clientName)
    (r.1, r.2.map fun accept => (accept <|> m.defaultAcceptPolicy).getD true)

/-- `verifyAuthentication`, with the secrets that the response has been compared with. -/
def verifyAuthentication (remoteEndpoint : Endpoint) (guest : String) (nonce : ℕ)
    (cnonce : String) (response : D) : List String × Except String Bool :=
  if hasRules remoteEndpoint then
    match remoteEndpoint.address env with
    | .error what => ([], .error what)
    | .ok address =>
      m.verifyResponse env address nonce
        { clientName := some guest, authChallengeResponse := some (env.toString response)
          cnonce := some cnonce }
  else if remoteEndpoint.texts.scheme = ascii "uds" then ([], .ok true)
  else ([], .ok (m.defaultAcceptPolicy.getD false))

/-- `verifyAuthentication` of a response that is read first. -/
def verifyAnswer (remoteEndpoint : Endpoint) (guest : String) (nonce : ℕ)
    (cnonce response : String) : Except String Bool :=
  match env.ofString response with
  | .error what => .error what
  | .ok response => (m.verifyAuthentication env remoteEndpoint guest nonce cnonce response).2

/-- The manager as a connection uses it, which generates `nonce` if it challenges. -/
def authManager (remoteEndpoint : Endpoint) (nonce : ℕ) : Except String AuthManager :=
  match m.challenge env remoteEndpoint nonce with
  | .error what => .error what
  | .ok requiresAuthentication =>
    .ok { requiresAuthentication, verifyAuthentication := m.verifyAnswer env remoteEndpoint }

/-- `Connection::asyncReceive` of a host with the manager, or what it throws. The manager is asked
before the greeting. -/
def asyncReceive (o : Owner A.toSchema V) (c : Connection) (now : Timepoint) (name : String)
    (remoteEndpoint : Endpoint) (nonce : ℕ) : Except String (Turn A.toSchema V) :=
  let authManager := m.authManager env remoteEndpoint nonce
  match c.asyncReceive o now name authManager.toOption, authManager with
  | none, _ => .error "only one async receive can be started on a connection"
  | some _, .error what => .error what
  | some r, .ok _ => .ok r

/-! ## The event handlers -/

/-- `multimap::emplace`: behind the entries of the same key. -/
def emplace (k : ℕ) (rule : DotsAuthentication A V) :
    List (ℕ × DotsAuthentication A V) → List (ℕ × DotsAuthentication A V)
  | [] => [(k, rule)]
  | e :: rules => if k < e.1 then (k, rule) :: e :: rules else e :: emplace k rule rules

variable [DecidableEq V]

/-- Replace the rule of the first entry with the keys of `authentication`. -/
def copyRule (authentication : DotsAuthentication A V) :
    List (ℕ × DotsAuthentication A V) → List (ℕ × DotsAuthentication A V)
  | [] => []
  | e :: rules =>
    if e.2.key = authentication.key then (e.1, e.2.copy authentication Finset.univ) :: rules
    else e :: copyRule authentication rules

def handleDotsAuthentication (mt : DotsMt) (authentication : DotsAuthentication A V) :
    LegacyAuthManager A V :=
  match mt with
  | .create =>
    { m with rules := emplace (authentication.priority.getD 0) authentication m.rules }
  | .update => { m with rules := copyRule authentication m.rules }
  | .remove =>
    { m with rules := m.rules.eraseP fun e => decide (e.2.key = authentication.key) }

def handleDotsAuthenticationPolicy (mt : DotsMt) (policy : DotsAuthenticationPolicy A V) :
    LegacyAuthManager A V :=
  if mt = .remove then { m with defaultAcceptPolicy := none }
  else
    match policy.accept with
    | some accept => { m with defaultAcceptPolicy := some accept }
    | none => m

end LegacyAuthManager

/-! ## A small space -/

/-- A space whose only types with properties are the two types. -/
def testAuthSchema : AuthSchema where
  descriptor n :=
    if n = "DotsAuthentication" then dotsAuthentication
    else if n = "DotsAuthenticationPolicy" then dotsAuthenticationPolicy
    else
      { name := n, propertyDescriptors := [], cached := false, internal := false
        cleanup := false, substructOnly := false, tags_nodup := List.nodup_nil }
  name_eq n := by
    split_ifs with h h'
    · exact h.symm
    · exact h'.symm
    · rfl
  internalTypes_not_cached := by decide
  authentication := rfl
  policy := rfl

/-- Numbers as values: a network is a prefix length of `10.0.0.0`, the empty text is `0`. -/
instance testAuthValue : AuthValue ℕ where
  string n := if n = 0 then "" else toString n
  uint16 n := n
  bool n := n != 0
  network n := ⟨some "10.0.0.0", some n⟩

/-- A rule for `10.0.0.0/8`. -/
def testRule (clientName priority : ℕ) (secret accept : Option ℕ) :
    DotsAuthentication testAuthSchema ℕ where
  value t :=
    if t = 1 then some 0 else if t = 2 then some 8 else if t = 3 then some clientName
    else if t = 4 then secret else if t = 5 then accept else if t = 6 then some priority else none
  value_eq_none t ht := by
    have h : ∀ i : Tag, i ∈ dotsAuthentication.properties → t ≠ i := by
      rintro i hi rfl
      exact ht hi
    simp only [h 1 (by decide), h 2 (by decide), h 3 (by decide), h 4 (by decide),
      h 5 (by decide), h 6 (by decide), if_false]

/-- Addresses and digests whose texts are read back. -/
def testAuthEnv : AuthEnv String where
  makeAddress text :=
    if text = "10.0.0.0" then .ok (.v4 0x0A000000)
    else if text = "10.0.0.1" then .ok (.v4 0x0A000001)
    else .error "invalid address"
  addressText address :=
    if address = .v4 0x0A000000 then "10.0.0.0"
    else if address = .v4 0x0A000001 then "10.0.0.1"
    else "::1"
  digest nonce cnonce userName secret :=
    .ofList (List.replicate nonce 'n' ++ ':' ::
      (cnonce ++ ":" ++ userName ++ ":" ++ secret).toList)
  ofString := .ok
  toString := id
  logsDebug := false

/-- A guest in `10.0.0.0/8`. -/
def testAddress : Address := .v4 0x0A000001

end Dots
