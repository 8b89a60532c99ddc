import Dots.Lib.Run
import Dots.Text.Format

/-!
# URIs

A URI object has its string and, beside it, views of the components.

* `StringView`: `std::string_view`, by its position in the string of the object.
* `splitBeforeFirstOf`, `splitLeftAtFirstOf`, `splitRightAtFirstOf`, `splitAfterFirstOf`.
* `Uri`, `Uri.parse`, `Uri.replace`, `Uri.set`: the class with its setters.
* `Uri.Fresh`: the components are those of the string; **`Uri.set_eq`**.
* `UriObjects`: objects that are constructed, assigned and modified.
* **`UriObjects.allFresh_run`**: the components stay those of the strings.
-/

set_option autoImplicit false

namespace Dots

/-! ## Views -/

/-- `std::string_view` of a part of a string. A view that does not point anywhere has no data. -/
structure StringView where
  data : Option ℕ := none
  size : ℕ := 0
  deriving DecidableEq

namespace StringView

/-- The characters of a view, as long as the string stays where it is in memory. -/
def text (str : List UInt8) (v : StringView) : List UInt8 :=
  match v.data with
  | none => []
  | some position => (str.drop position).take v.size

/-- A string as a whole. -/
def whole (str : List UInt8) : StringView := { data := some 0, size := str.length }

/-- `substr` of the first `count` characters. -/
def front (v : StringView) (count : ℕ) : StringView := { v with size := min count v.size }

/-- `remove_prefix`, and `substr` of what is behind the first `count` characters. -/
def removePrefix (v : StringView) (count : ℕ) : StringView :=
  { data := v.data.map (· + count), size := v.size - count }

end StringView

/-- `std::string_view::find` of a delimiter. -/
def findDelimiter (delimiter : List UInt8) : List UInt8 → Option ℕ
  | [] => none
  | b :: str =>
    if delimiter.isPrefixOf (b :: str) then some 0 else (findDelimiter delimiter str).map (· + 1)

section Split

variable (str : List UInt8) (v : StringView) (delimiter : List UInt8)

def splitBeforeFirstOf : StringView × StringView :=
  match findDelimiter delimiter (v.text str) with
  | none => (v, {})
  | some position => (v.front position, v.removePrefix position)

def splitLeftAtFirstOf : StringView × StringView :=
  match findDelimiter delimiter (v.text str) with
  | none => (v, {})
  | some position => (v.front position, v.removePrefix (position + delimiter.length))

def splitRightAtFirstOf : StringView × StringView :=
  match findDelimiter delimiter (v.text str) with
  | none => ({}, v)
  | some position => (v.front position, v.removePrefix (position + delimiter.length))

/-- With the assertion that the delimiter is there. -/
def splitAfterFirstOf : Except (List UInt8) (StringView × StringView) :=
  match findDelimiter delimiter (v.text str) with
  | none => .error (ascii "string '" ++ v.text str ++ ascii "' does not contain delimiter '" ++
      delimiter ++ ascii "'")
  | some position =>
    .ok (v.front (position + delimiter.length), v.removePrefix (position + delimiter.length))

end Split

/-! ## The class -/

structure Uri where
  uriStr : List UInt8
  scheme : StringView := {}
  authority : StringView := {}
  userName : StringView := {}
  userPassword : StringView := {}
  hostDelimited : StringView := {}
  host : StringView := {}
  port : StringView := {}
  path : StringView := {}
  deriving DecidableEq

/-- What the accessors return. -/
structure UriTexts where
  scheme : List UInt8
  authority : List UInt8
  userName : List UInt8
  userPassword : List UInt8
  host : List UInt8
  port : List UInt8
  path : List UInt8
  deriving DecidableEq

namespace Uri

variable (u : Uri)

def texts : UriTexts where
  scheme := u.scheme.text u.uriStr
  authority := u.authority.text u.uriStr
  userName := u.userName.text u.uriStr
  userPassword := u.userPassword.text u.uriStr
  host := u.host.text u.uriStr
  port := u.port.text u.uriStr
  path := u.path.text u.uriStr

/-- The part of `parse` behind the user info. -/
def parseHost (remainder : StringView) : Uri × Except (List UInt8) Unit :=
  if (ascii "[").isPrefixOf (remainder.text u.uriStr) then
    match splitAfterFirstOf u.uriStr remainder (ascii "]") with
    | .error what =>
      (u, .error (ascii "could not parse URI string '" ++ u.uriStr ++ ascii "' -> " ++ what))
    | .ok (hostDelimited, port) =>
      let port := if (ascii ":").isPrefixOf (port.text u.uriStr) then port.removePrefix 1 else port
      ({ u with
        hostDelimited, port
        host := (hostDelimited.removePrefix 1).front (hostDelimited.size - 2) }, .ok ())
  else
    let (host, port) := splitLeftAtFirstOf u.uriStr remainder (ascii ":")
    ({ u with host, port, hostDelimited := host }, .ok ())

/-- The part of `parse` for the authority. -/
def parseAuthority : Uri × Except (List UInt8) Unit :=
  if u.authority.size = 0 then (u, .ok ())
  else
    let (userInfo, remainder) := splitRightAtFirstOf u.uriStr u.authority (ascii "@")
    if userInfo.size = 0 then u.parseHost remainder
    else
      let (userName, userPassword) := splitLeftAtFirstOf u.uriStr userInfo (ascii ":")
      { u with userName, userPassword }.parseHost remainder

/-- `Uri::parse`. Without a scheme before "://" the authority stays as it was. -/
def parse : Uri × Except (List UInt8) Unit :=
  let u :=
    { u with userName := {}, userPassword := {}, hostDelimited := {}, host := {}, port := {} }
  let (scheme, remainder) := splitRightAtFirstOf u.uriStr (.whole u.uriStr) (ascii "://")
  if scheme.size = 0 then
    let (scheme, path) := splitRightAtFirstOf u.uriStr remainder (ascii ":")
    ({ u with scheme, path }, .ok ())
  else
    let (authority, path) := splitBeforeFirstOf u.uriStr remainder (ascii "/")
    { u with scheme, authority, path }.parseAuthority

/-- The constructor of a string, whose exception leaves no object. -/
def ofString (uriStr : List UInt8) : Except (List UInt8) Uri :=
  match parse { uriStr } with
  | (u, .ok _) => .ok u
  | (_, .error what) => .error what

/-- `Uri::replace`. A part that has no data is out of the range of the string. -/
def replace (part : StringView) (replacement : List UInt8) : Uri × Except (List UInt8) Unit :=
  match part.data with
  | none => (u, .error (ascii "basic_string::replace"))
  | some position =>
    if position ≤ u.uriStr.length then
      parse { u with
        uriStr := u.uriStr.take position ++ replacement ++ u.uriStr.drop (position + part.size) }
    else (u, .error (ascii "basic_string::replace"))

/-! ## Setters -/

def setScheme (scheme : List UInt8) : Uri × Except (List UInt8) Unit :=
  if scheme = [] then (u, .error (ascii "URI scheme cannot be empty"))
  else u.replace u.scheme scheme

def setAuthority (authority : List UInt8) : Uri × Except (List UInt8) Unit :=
  if u.authority.size = 0 then
    u.replace u.scheme
      (u.scheme.text u.uriStr ++ ascii "://" ++ authority ++ u.path.text u.uriStr)
  else u.replace u.authority authority

def setUserName (userName : List UInt8) : Uri × Except (List UInt8) Unit :=
  if u.userName.size = 0 then
    if u.host.size = 0 then (u, .error (ascii "cannot set user name on URI without a host"))
    else u.replace u.host (userName ++ ascii "@" ++ u.host.text u.uriStr)
  else u.replace u.userName userName

/-- A view with the separator before it. -/
def withSeparator (v : StringView) : StringView :=
  { data := v.data.map (· - 1), size := v.size + 1 }

def setUserPassword (userPassword : List UInt8) : Uri × Except (List UInt8) Unit :=
  if u.userPassword.size = 0 then
    if u.userName.size = 0 then
      (u, .error (ascii "cannot set user password on URI without a user name"))
    else u.replace u.userName (u.userName.text u.uriStr ++ ascii ":" ++ userPassword)
  else if userPassword = [] then u.replace (withSeparator u.userPassword) userPassword
  else u.replace u.userPassword userPassword

/-- The host as `setHost` writes it. -/
def delimited (host : List UInt8) : List UInt8 :=
  if 0x3A ∈ host then ascii "[" ++ host ++ ascii "]" else host

/-- An authority is set from the data of a view, which ends at the first zero. -/
def setHost (host : List UInt8) : Uri × Except (List UInt8) Unit :=
  if u.authority.size = 0 then u.setAuthority ((delimited host).takeWhile (· ≠ 0))
  else u.replace u.hostDelimited (delimited host)

def setPort (port : List UInt8) : Uri × Except (List UInt8) Unit :=
  if u.port.size = 0 then
    if u.host.size = 0 then (u, .error (ascii "cannot set port on URI without a host"))
    else u.replace u.host (u.host.text u.uriStr ++ ascii ":" ++ port)
  else if port = [] then u.replace (withSeparator u.port) port
  else u.replace u.port port

def setPath (path : List UInt8) : Uri × Except (List UInt8) Unit :=
  if path ≠ [] ∧ path.head? ≠ some 0x2F then
    (u, .error (ascii "URI path to set does not begin with '/': " ++ path))
  else if u.path.size = 0 then parse { u with uriStr := u.uriStr ++ path }
  else u.replace u.path path

end Uri

/-- A call of a setter. -/
inductive UriSetter
  | scheme (scheme : List UInt8)
  | authority (authority : List UInt8)
  | userName (userName : List UInt8)
  | userPassword (userPassword : List UInt8)
  | host (host : List UInt8)
  | port (port : List UInt8)
  | path (path : List UInt8)
  deriving DecidableEq

namespace Uri

variable (u : Uri)

def set : UriSetter → Uri × Except (List UInt8) Unit
  | .scheme scheme => u.setScheme scheme
  | .authority authority => u.setAuthority authority
  | .userName userName => u.setUserName userName
  | .userPassword userPassword => u.setUserPassword userPassword
  | .host host => u.setHost host
  | .port port => u.setPort port
  | .path path => u.setPath path

/-! ## What a parse leaves -/

/-- There is a scheme before "://". -/
def HasScheme (uriStr : List UInt8) : Prop :=
  (splitRightAtFirstOf uriStr (.whole uriStr) (ascii "://")).1.size ≠ 0

instance (uriStr : List UInt8) : Decidable (HasScheme uriStr) :=
  inferInstanceAs (Decidable (_ ≠ _))

/-- A URI can be constructed of the string. -/
def Parses (uriStr : List UInt8) : Prop := (ofString uriStr).isOk

instance (uriStr : List UInt8) : Decidable (Parses uriStr) :=
  inferInstanceAs (Decidable (_ = true))

/-- The accessors return what those of a URI return that is constructed of the string. -/
def Fresh : Prop := ∃ v, ofString u.uriStr = .ok v ∧ u.texts = v.texts

variable {u}

/-- Everything is overwritten if there is a scheme before "://". -/
theorem parse_of_hasScheme (h : HasScheme u.uriStr) : u.parse = parse { uriStr := u.uriStr } := by
  unfold parse
  simp only
  rw [if_neg h, if_neg h]

/-- Otherwise the authority stays. -/
theorem parse_of_not_hasScheme (h : ¬HasScheme u.uriStr) :
    u.parse = ({ (parse { uriStr := u.uriStr }).1 with authority := u.authority }, .ok ()) := by
  have hsize := not_not.mp h
  unfold parse
  simp only
  rw [if_pos hsize, if_pos hsize]

theorem uriStr_parseHost (remainder : StringView) :
    (u.parseHost remainder).1.uriStr = u.uriStr := by
  unfold parseHost
  split_ifs
  · split <;> rfl
  · rfl

theorem uriStr_parseAuthority : u.parseAuthority.1.uriStr = u.uriStr := by
  unfold parseAuthority
  simp only
  split_ifs
  · rfl
  · rw [uriStr_parseHost]
  · rw [uriStr_parseHost]

@[simp] theorem uriStr_parse : u.parse.1.uriStr = u.uriStr := by
  unfold parse
  simp only
  split_ifs
  · rfl
  · rw [uriStr_parseAuthority]

theorem ofString_of_parses {uriStr : List UInt8} (h : Parses uriStr) :
    ofString uriStr = .ok (parse { uriStr }).1 := by
  unfold Parses ofString at h
  unfold ofString
  generalize parse { uriStr } = r at h
  obtain ⟨u, _ | _⟩ := r
  · cases h
  · rfl

/-- **A parse** has the accessors tell what the string has, if the string can be parsed, and has a
scheme before "://" or there was no authority. -/
theorem fresh_parse (hparses : Parses u.uriStr) (h : HasScheme u.uriStr ∨ u.authority.size = 0) :
    u.parse.1.Fresh := by
  refine ⟨(parse { uriStr := u.uriStr }).1, by rw [uriStr_parse, ofString_of_parses hparses], ?_⟩
  by_cases hscheme : HasScheme u.uriStr
  · rw [parse_of_hasScheme hscheme]
  · have hauthority : u.authority.text u.uriStr = [] := by
      unfold StringView.text
      rw [h.resolve_left hscheme]
      split <;> rfl
    have hnone : (parse { uriStr := u.uriStr }).1.authority.text u.uriStr = [] := by
      rw [parse_of_not_hasScheme (u := { uriStr := u.uriStr }) hscheme]
      rfl
    rw [parse_of_not_hasScheme hscheme]
    simp only [texts, uriStr_parse, hauthority, hnone]

theorem fresh_ofString {uriStr : List UInt8} (h : ofString uriStr = .ok u) : u.Fresh := by
  have hu : u.uriStr = uriStr := by
    unfold ofString at h
    split at h
    · rename_i v _ hparse
      cases h
      have hkeep : (parse { uriStr }).1.uriStr = uriStr := uriStr_parse
      rwa [hparse] at hkeep
    · cases h
  exact ⟨u, by rw [hu, h], rfl⟩

/-! ## What a setter parses -/

variable (u)

/-- The string with another text for a part of it. -/
def replaced (part : StringView) (replacement : List UInt8) : Option (List UInt8) :=
  match part.data with
  | none => none
  | some position =>
    if position ≤ u.uriStr.length then
      some (u.uriStr.take position ++ replacement ++ u.uriStr.drop (position + part.size))
    else none

def editedAuthority (authority : List UInt8) : Option (List UInt8) :=
  if u.authority.size = 0 then
    u.replaced u.scheme
      (u.scheme.text u.uriStr ++ ascii "://" ++ authority ++ u.path.text u.uriStr)
  else u.replaced u.authority authority

/-- The string that a setter has parsed, unless it throws before. -/
def edited : UriSetter → Option (List UInt8)
  | .scheme scheme => if scheme = [] then none else u.replaced u.scheme scheme
  | .authority authority => u.editedAuthority authority
  | .userName userName =>
    if u.userName.size = 0 then
      if u.host.size = 0 then none
      else u.replaced u.host (userName ++ ascii "@" ++ u.host.text u.uriStr)
    else u.replaced u.userName userName
  | .userPassword userPassword =>
    if u.userPassword.size = 0 then
      if u.userName.size = 0 then none
      else u.replaced u.userName (u.userName.text u.uriStr ++ ascii ":" ++ userPassword)
    else if userPassword = [] then u.replaced (withSeparator u.userPassword) userPassword
    else u.replaced u.userPassword userPassword
  | .host host =>
    if u.authority.size = 0 then u.editedAuthority ((delimited host).takeWhile (· ≠ 0))
    else u.replaced u.hostDelimited (delimited host)
  | .port port =>
    if u.port.size = 0 then
      if u.host.size = 0 then none
      else u.replaced u.host (u.host.text u.uriStr ++ ascii ":" ++ port)
    else if port = [] then u.replaced (withSeparator u.port) port
    else u.replaced u.port port
  | .path path =>
    if path ≠ [] ∧ path.head? ≠ some 0x2F then none
    else if u.path.size = 0 then some (u.uriStr ++ path)
    else u.replaced u.path path

/-- A string is parsed, or an exception leaves the URI as it is. -/
def ParsesOrThrows (edited : Option (List UInt8)) (r : Uri × Except (List UInt8) Unit) : Prop :=
  match edited with
  | none => ∃ what, r = (u, .error what)
  | some uriStr => r = parse { u with uriStr }

variable {u}

theorem replace_eq (part : StringView) (replacement : List UInt8) :
    u.ParsesOrThrows (u.replaced part replacement) (u.replace part replacement) := by
  unfold replaced replace
  cases part.data with
  | none => exact ⟨_, rfl⟩
  | some position =>
    simp only
    split_ifs
    · exact rfl
    · exact ⟨_, rfl⟩

theorem setAuthority_eq (authority : List UInt8) :
    u.ParsesOrThrows (u.editedAuthority authority) (u.setAuthority authority) := by
  unfold editedAuthority setAuthority
  split_ifs
  · exact replace_eq _ _
  · exact replace_eq _ _

/-- **A setter** parses the string with the part replaced, or throws. -/
theorem set_eq (setter : UriSetter) : u.ParsesOrThrows (u.edited setter) (u.set setter) := by
  cases setter with
  | scheme scheme =>
    simp only [edited, set, setScheme]
    split_ifs
    · exact ⟨_, rfl⟩
    · exact replace_eq _ _
  | authority authority => exact setAuthority_eq authority
  | userName userName =>
    simp only [edited, set, setUserName]
    split_ifs
    · exact ⟨_, rfl⟩
    · exact replace_eq _ _
    · exact replace_eq _ _
  | userPassword userPassword =>
    simp only [edited, set, setUserPassword]
    split_ifs
    · exact ⟨_, rfl⟩
    · exact replace_eq _ _
    · exact replace_eq _ _
    · exact replace_eq _ _
  | host host =>
    simp only [edited, set, setHost]
    split_ifs
    · exact setAuthority_eq _
    · exact replace_eq _ _
  | port port =>
    simp only [edited, set, setPort]
    split_ifs
    · exact ⟨_, rfl⟩
    · exact replace_eq _ _
    · exact replace_eq _ _
    · exact replace_eq _ _
  | path path =>
    simp only [edited, set, setPath]
    split_ifs
    · exact ⟨_, rfl⟩
    · exact rfl
    · exact replace_eq _ _

/-- A string that a URI can have parsed: it is one, and the authority is not left behind. -/
def Accepts (u : Uri) (uriStr : List UInt8) : Prop :=
  Parses uriStr ∧ (HasScheme uriStr ∨ u.authority.size = 0)

instance (u : Uri) (uriStr : List UInt8) : Decidable (u.Accepts uriStr) :=
  inferInstanceAs (Decidable (_ ∧ _))

theorem fresh_of_accepts {uriStr : List UInt8} (h : u.Accepts uriStr) :
    (parse { u with uriStr }).1.Fresh := fresh_parse h.1 h.2

theorem fresh_set (hfresh : u.Fresh) (setter : UriSetter)
    (h : ∀ uriStr, u.edited setter = some uriStr → u.Accepts uriStr) : (u.set setter).1.Fresh := by
  have heq := set_eq (u := u) setter
  cases hedited : u.edited setter with
  | none =>
    rw [hedited] at heq
    obtain ⟨what, hset⟩ := heq
    rw [hset]
    exact hfresh
  | some uriStr =>
    rw [hedited] at heq
    rw [show u.set setter = parse { u with uriStr } from heq]
    exact fresh_of_accepts (h uriStr hedited)

end Uri

/-! ## Objects -/

/-- URI objects by name, and those that have been moved from since they were assigned. -/
structure UriObjects where
  objects : ℕ → Option Uri := fun _ => none
  movedFrom : ℕ → Bool := fun _ => false

/-- The operations. What a move leaves in the string that is moved from is not specified. -/
inductive UriAct
  | construct (i : ℕ) (uriStr : List UInt8)
  | constructHost (i : ℕ) (scheme host port : List UInt8)
  | constructPath (i : ℕ) (scheme path : List UInt8)
  | copy (i j : ℕ)
  | assign (i j : ℕ)
  | moveAssign (i j : ℕ) (left : List UInt8)
  | set (i : ℕ) (setter : UriSetter)

namespace UriObjects

variable (s : UriObjects)

/-- An object is constructed or has been assigned to. -/
def put (i : ℕ) (u : Option Uri) : UriObjects where
  objects := Function.update s.objects i u
  movedFrom := Function.update s.movedFrom i false

/-- A constructor, and no object if it throws. -/
def construct (i : ℕ) (uriStr : List UInt8) : UriObjects := s.put i (Uri.ofString uriStr).toOption

/-- An operation on objects that are there. The constructors from another object copy its string,
that of a moved one too. -/
def step : UriAct → Option UriObjects
  | .construct i uriStr => some (s.construct i uriStr)
  | .constructHost i scheme host port =>
    some (s.construct i (scheme ++ ascii "://" ++ host ++ ascii ":" ++ port))
  | .constructPath i scheme path => some (s.construct i (scheme ++ ascii ":" ++ path))
  | .copy i j => (s.objects j).map fun v => s.construct i v.uriStr
  | .assign i j => do
    let u ← s.objects i
    let v ← s.objects j
    return s.put i (some (Uri.parse { u with uriStr := v.uriStr }).1)
  | .moveAssign i j left => do
    let u ← s.objects i
    let v ← s.objects j
    if i = j then return s.put i (some (Uri.parse { u with uriStr := left }).1)
    else
      let s := s.put i (some (Uri.parse { u with uriStr := v.uriStr }).1)
      return { objects := Function.update s.objects j (some { v with uriStr := left })
               movedFrom := Function.update s.movedFrom j true }
  | .set i setter => (s.objects i).map fun u =>
      { s with objects := Function.update s.objects i (some (u.set setter).1) }

/-- The steps that leave no component behind: what is assigned to an object, or what a setter makes
of its string, can be parsed, and has a scheme before "://" unless the object has no authority.
Setters are called for objects that have not been moved from. -/
def Allowed (s : UriObjects) : UriAct → Prop
  | .assign i j => ∀ u v, s.objects i = some u → s.objects j = some v → u.Accepts v.uriStr
  | .moveAssign i j left => ∀ u v, s.objects i = some u → s.objects j = some v →
      u.Accepts (if i = j then left else v.uriStr)
  | .set i setter => s.movedFrom i = false ∧ ∀ u uriStr, s.objects i = some u →
      u.edited setter = some uriStr → u.Accepts uriStr
  | _ => True

/-- The components of every object that has not been moved from are those of its string. -/
def AllFresh (s : UriObjects) : Prop :=
  ∀ i u, s.objects i = some u → s.movedFrom i = false → u.Fresh

variable {s}

theorem AllFresh.put (hs : s.AllFresh) {i : ℕ} {u : Option Uri} (hu : ∀ v, u = some v → v.Fresh) :
    (s.put i u).AllFresh := by
  intro j v hv hmoved
  change Function.update s.objects i u j = some v at hv
  change Function.update s.movedFrom i false j = false at hmoved
  rcases eq_or_ne j i with rfl | hne
  · rw [Function.update_self] at hv
    exact hu v hv
  · rw [Function.update_of_ne hne] at hv hmoved
    exact hs j v hv hmoved

theorem AllFresh.construct (hs : s.AllFresh) (i : ℕ) (uriStr : List UInt8) :
    (s.construct i uriStr).AllFresh := by
  refine hs.put fun v hv => ?_
  cases hparse : Uri.ofString uriStr with
  | error what => rw [hparse] at hv; cases hv
  | ok u =>
    rw [hparse] at hv
    cases hv
    exact Uri.fresh_ofString hparse

/-- **One step** keeps the components those of the strings. -/
theorem allFresh_step {t : UriObjects} {act : UriAct} (hs : s.AllFresh)
    (hstep : s.step act = some t) (h : s.Allowed act) : t.AllFresh := by
  cases act with
  | construct i uriStr => cases hstep; exact hs.construct i uriStr
  | constructHost i scheme host port => cases hstep; exact hs.construct i _
  | constructPath i scheme path => cases hstep; exact hs.construct i _
  | copy i j =>
    obtain ⟨v, -, rfl⟩ := Option.map_eq_some_iff.mp hstep
    exact hs.construct i _
  | assign i j =>
    obtain ⟨u, hu, hstep⟩ := Option.bind_eq_some_iff.mp hstep
    obtain ⟨v, hv, hstep⟩ := Option.bind_eq_some_iff.mp hstep
    cases hstep
    refine hs.put fun w hw => ?_
    cases hw
    exact Uri.fresh_of_accepts (h u v hu hv)
  | moveAssign i j left =>
    obtain ⟨u, hu, hstep⟩ := Option.bind_eq_some_iff.mp hstep
    obtain ⟨v, hv, hstep⟩ := Option.bind_eq_some_iff.mp hstep
    have haccepts := h u v hu hv
    split_ifs at hstep haccepts with hsame
    · cases hstep
      refine hs.put fun w hw => ?_
      cases hw
      exact Uri.fresh_of_accepts haccepts
    · cases hstep
      have hput := hs.put (i := i) (u := some (Uri.parse { u with uriStr := v.uriStr }).1)
        fun w hw => by cases hw; exact Uri.fresh_of_accepts haccepts
      intro k w hw hmoved
      rcases eq_or_ne k j with rfl | hne
      · simp only [Function.update_self, Bool.true_eq_false] at hmoved
      · simp only [Function.update_of_ne hne] at hw hmoved
        exact hput k w hw hmoved
  | set i setter =>
    obtain ⟨u, hu, rfl⟩ := Option.map_eq_some_iff.mp hstep
    intro k w hw hmoved
    rcases eq_or_ne k i with rfl | hne
    · simp only [Function.update_self, Option.some_inj] at hw
      subst hw
      exact Uri.fresh_set (hs k u hu h.1) setter fun uriStr => h.2 u uriStr hu
    · simp only [Function.update_of_ne hne] at hw
      exact hs k w hw hmoved

/-- **In every run of such steps** the components of every object are those of its string. -/
theorem allFresh_run {t : UriObjects} {acts : List UriAct}
    (r : Lts.Run (Lts.Guarded (Lts.ofPartial step) Allowed) {} acts t) : t.AllFresh := by
  have hinit : AllFresh {} := fun _ _ hu => nomatch hu
  refine r.invariant (I := AllFresh) ?_ hinit
  rintro s act t hs ⟨hstep, hallowed⟩
  exact allFresh_step hs hstep hallowed

/-- An address with a port, and another one assigned to it. -/
def addressActs : List UriAct :=
  [.construct 0 (ascii "tcp://abc"), .set 0 (.port (ascii "80")),
    .construct 1 (ascii "ws://user@[::1]/"), .assign 0 1]

/-- A URI without an authority is assigned to one that has one. -/
def socketActs : List UriAct :=
  [.construct 0 (ascii "tcp://abc"), .construct 1 (ascii "uds:/x/y/z"), .assign 0 1]

theorem allFresh_run_address : ∃ t, Lts.exec step {} addressActs = some t ∧ t.AllFresh ∧
    (t.objects 0).map Uri.texts = (t.objects 1).map Uri.texts := by
  refine ⟨_, rfl, allFresh_run
    (?_ : Lts.Run (Lts.Guarded (Lts.ofPartial step) Allowed) {} addressActs _), by decide +kernel⟩
  refine .cons ⟨rfl, trivial⟩ (.cons ⟨rfl, rfl, ?_⟩
    (.cons ⟨rfl, trivial⟩ (.cons ⟨rfl, ?_⟩ (.nil _))))
  · intro u uriStr hu hedited
    cases hu
    cases hedited
    decide +kernel
  · intro u v hu hv
    cases hu
    cases hv
    decide +kernel

/-- The authority of the URI before is left behind. -/
theorem not_allFresh_run : ∃ t u, Lts.Run (Lts.ofPartial step) {} socketActs t ∧
    t.objects 0 = some u ∧ t.movedFrom 0 = false ∧ u.texts.authority = ascii "/y/" ∧ ¬u.Fresh := by
  refine ⟨_, _, Lts.run_of_exec rfl, rfl, rfl, by decide +kernel, ?_⟩
  rintro ⟨v, hv, htexts⟩
  cases hv
  exact absurd (congrArg UriTexts.authority htexts) (by decide +kernel)

end UriObjects

end Dots
