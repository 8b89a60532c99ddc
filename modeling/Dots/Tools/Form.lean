import Dots.Tools.Uri

/-!
# The parts of a URI string

* `cut`, `UriParts.read`: a string as the parts that are read from it.
* **`Uri.parts_ofString`**: the views of a URI are these parts.
* `UriForm`: the URIs that the syntax describes, **`read_text`**.
-/

set_option autoImplicit false

namespace Dots

/-! ## Cuts -/

/-- What is before and behind the first delimiter. -/
def cut (delimiter str : List UInt8) : Option (List UInt8 × List UInt8) :=
  (findDelimiter delimiter str).map fun position =>
    (str.take position, str.drop (position + delimiter.length))

section Cut

variable {c : UInt8} {d a b str : List UInt8}

/-- What does not have the first character of a delimiter does not have it. -/
theorem findDelimiter_append (h : c ∉ a) :
    findDelimiter (c :: d) (a ++ b) = (findDelimiter (c :: d) b).map (· + a.length) := by
  induction a with
  | nil => simp
  | cons x a ih =>
    rw [List.mem_cons, not_or] at h
    have hno : (c :: d).isPrefixOf (x :: (a ++ b)) = false := by
      simp [List.isPrefixOf, h.1]
    rw [List.cons_append, findDelimiter, hno, ih h.2, Option.map_map]
    rfl

theorem findDelimiter_self : findDelimiter (c :: d) (c :: (d ++ b)) = some 0 := by
  have hyes : (c :: d).isPrefixOf (c :: (d ++ b)) = true := by
    rw [List.isPrefixOf_iff_prefix]
    exact ⟨b, rfl⟩
  rw [findDelimiter, hyes, if_pos rfl]

theorem findDelimiter_eq_none (h : c ∉ a) : findDelimiter (c :: d) a = none := by
  have hnil := findDelimiter_append (d := d) (b := []) h
  rwa [List.append_nil] at hnil

theorem cut_eq (h : c ∉ a) : cut (c :: d) (a ++ c :: (d ++ b)) = some (a, b) := by
  have hlength : (c :: d).length = d.length + 1 := rfl
  rw [cut, findDelimiter_append h, findDelimiter_self, Option.map_some, Option.map_some]
  have hdrop : (a ++ c :: (d ++ b)).drop (a.length + (d.length + 1)) = b := by
    rw [List.drop_append, List.drop_of_length_le (by omega), List.nil_append]
    simp
  simp [hdrop]

theorem cut_eq_none (h : c ∉ a) : cut (c :: d) a = none := by
  rw [cut, findDelimiter_eq_none h]
  rfl

theorem cut_append_eq_none (h : c ∉ a) (hb : cut (c :: d) b = none) :
    cut (c :: d) (a ++ b) = none := by
  rw [cut, Option.map_eq_none_iff] at hb ⊢
  rw [findDelimiter_append h, hb]
  rfl

end Cut

/-! ## The parts of a string -/

structure UriParts where
  scheme : List UInt8
  userName : List UInt8 := []
  userPassword : List UInt8 := []
  host : List UInt8 := []
  port : List UInt8 := []
  path : List UInt8
  deriving DecidableEq

def Uri.parts (u : Uri) : UriParts where
  scheme := u.scheme.text u.uriStr
  userName := u.userName.text u.uriStr
  userPassword := u.userPassword.text u.uriStr
  host := u.host.text u.uriStr
  port := u.port.text u.uriStr
  path := u.path.text u.uriStr

/-- A host and its port, unless a bracket is not closed. -/
def readHost (str : List UInt8) : Option (List UInt8 × List UInt8) :=
  if (ascii "[").isPrefixOf str then
    (cut (ascii "]") str).map fun (host, port) =>
      (host.drop 1, if (ascii ":").isPrefixOf port then port.drop 1 else port)
  else some ((cut (ascii ":") str).getD (str, []))

/-- The user name, the password, the host and the port of an authority. -/
def readAuthority (str : List UInt8) :
    Option ((List UInt8 × List UInt8) × List UInt8 × List UInt8) :=
  let (userInfo, rest) := (cut (ascii "@") str).getD ([], str)
  (readHost rest).map fun host => ((cut (ascii ":") userInfo).getD (userInfo, []), host)

/-- The parts of a string. -/
def UriParts.read (str : List UInt8) : Option UriParts :=
  let (scheme, rest) := (cut (ascii "://") str).getD ([], str)
  if scheme = [] then
    let (scheme, path) := (cut (ascii ":") rest).getD ([], rest)
    some { scheme, path }
  else
    let (authority, path) := (cut (ascii "/") rest).elim (rest, []) fun (authority, path) =>
      (authority, 0x2F :: path)
    (readAuthority authority).map fun ((userName, userPassword), host, port) =>
      { scheme, userName, userPassword, host, port, path }

/-! ## Views and their texts -/

namespace StringView

variable {str : List UInt8} {v : StringView} {n : ℕ}

/-- A view of characters that are there. -/
def Within (str : List UInt8) (v : StringView) : Prop := v.size = (v.text str).length

theorem Within.size_eq_zero (h : v.Within str) : v.size = 0 ↔ v.text str = [] := by
  rw [h, List.length_eq_zero_iff]

@[simp] theorem text_whole (str : List UInt8) : (whole str).text str = str := by
  simp [whole, text]

theorem Within.whole (str : List UInt8) : (StringView.whole str).Within str := by
  rw [Within, text_whole]
  rfl

theorem Within.empty (str : List UInt8) : ({} : StringView).Within str := rfl

@[simp] theorem text_empty (str : List UInt8) : ({} : StringView).text str = [] := rfl

@[simp] theorem text_front : (v.front n).text str = (v.text str).take n := by
  unfold text front
  cases v.data with
  | none => exact (List.take_nil ..).symm
  | some position => exact List.take_take.symm

@[simp] theorem text_removePrefix : (v.removePrefix n).text str = (v.text str).drop n := by
  unfold text removePrefix
  cases v.data with
  | none => exact (List.drop_nil ..).symm
  | some position => simp only [Option.map_some, List.drop_take, List.drop_drop]

theorem Within.front (h : v.Within str) (n : ℕ) : (v.front n).Within str := by
  rw [Within, text_front, List.length_take, ← h]
  rfl

theorem Within.removePrefix (h : v.Within str) (n : ℕ) : (v.removePrefix n).Within str := by
  rw [Within, text_removePrefix, List.length_drop, ← h]
  rfl

end StringView

section Split

variable {str : List UInt8} {v : StringView} {delimiter : List UInt8}

theorem prefix_of_findDelimiter : ∀ {str : List UInt8} {position : ℕ},
    findDelimiter delimiter str = some position → delimiter <+: str.drop position
  | [], _, h => by cases h
  | b :: str, position, h => by
    rw [findDelimiter] at h
    split_ifs at h with hprefix
    · cases h
      exact List.isPrefixOf_iff_prefix.mp hprefix
    · obtain ⟨position, hposition, rfl⟩ := Option.map_eq_some_iff.mp h
      have htail := prefix_of_findDelimiter hposition
      rwa [List.drop_succ_cons]

/-- Two views within a string, with their texts. -/
structure Cuts (str : List UInt8) (views : StringView × StringView)
    (texts : List UInt8 × List UInt8) : Prop where
  fst : views.1.text str = texts.1
  snd : views.2.text str = texts.2
  within_fst : views.1.Within str
  within_snd : views.2.Within str

theorem cuts_left (h : v.Within str) (delimiter : List UInt8) :
    Cuts str (splitLeftAtFirstOf str v delimiter)
      ((cut delimiter (v.text str)).getD (v.text str, [])) := by
  unfold splitLeftAtFirstOf cut
  cases findDelimiter delimiter (v.text str) with
  | none => exact ⟨rfl, rfl, h, .empty str⟩
  | some position => exact ⟨by simp, by simp, h.front _, h.removePrefix _⟩

theorem cuts_right (h : v.Within str) (delimiter : List UInt8) :
    Cuts str (splitRightAtFirstOf str v delimiter)
      ((cut delimiter (v.text str)).getD ([], v.text str)) := by
  unfold splitRightAtFirstOf cut
  cases findDelimiter delimiter (v.text str) with
  | none => exact ⟨rfl, rfl, .empty str, h⟩
  | some position => exact ⟨by simp, by simp, h.front _, h.removePrefix _⟩

theorem cuts_before (h : v.Within str) (b : UInt8) :
    Cuts str (splitBeforeFirstOf str v [b])
      ((cut [b] (v.text str)).elim (v.text str, []) fun (before, behind) =>
        (before, b :: behind)) := by
  unfold splitBeforeFirstOf cut
  cases hfind : findDelimiter [b] (v.text str) with
  | none => exact ⟨rfl, rfl, h, .empty str⟩
  | some position =>
    obtain ⟨behind, hbehind⟩ := prefix_of_findDelimiter hfind
    have hdrop : (v.text str).drop (position + 1) = behind := by
      rw [← List.drop_drop, ← hbehind]
      rfl
    refine ⟨by simp, ?_, h.front _, h.removePrefix _⟩
    simp only [StringView.text_removePrefix, Option.map_some, Option.elim_some]
    rw [← hbehind]
    exact congrArg (b :: ·) hdrop.symm

end Split

/-! ## What is read from a string -/

namespace Uri

variable {u : Uri}

/-- The parts that `parseHost` reads. -/
theorem parseHost_spec {remainder : StringView} (h : remainder.Within u.uriStr) :
    match readHost (remainder.text u.uriStr) with
    | none => ∃ what, u.parseHost remainder = (u, .error what)
    | some (host, port) => ∃ v, u.parseHost remainder = (v, .ok ()) ∧
        v.parts = { u.parts with host, port } := by
  unfold parseHost readHost
  by_cases hbracket : (ascii "[").isPrefixOf (remainder.text u.uriStr) = true
  · rw [if_pos hbracket, if_pos hbracket]
    unfold splitAfterFirstOf cut
    cases hfind : findDelimiter (ascii "]") (remainder.text u.uriStr) with
    | none => exact ⟨_, rfl⟩
    | some position =>
      obtain ⟨behind, hbehind⟩ := prefix_of_findDelimiter hfind
      have hlt : position < remainder.size := by
        rw [h, ← not_le]
        intro hle
        rw [List.drop_of_length_le hle] at hbehind
        cases hbehind
      have hsize : (remainder.front (position + 1)).size = position + 1 := min_eq_left hlt
      have hhost : (((remainder.front (position + 1)).removePrefix 1).front (position + 1 - 2)).text
          u.uriStr = ((remainder.text u.uriStr).take position).drop 1 := by
        simp only [StringView.text_front, StringView.text_removePrefix, List.drop_take,
          List.take_take]
        congr 1
        omega
      have hport : (remainder.removePrefix (position + 1)).text u.uriStr =
          (remainder.text u.uriStr).drop (position + 1) := StringView.text_removePrefix
      refine ⟨_, rfl, ?_⟩
      have hlength : (ascii "]").length = 1 := rfl
      simp only [parts, hlength, hsize, hhost, hport]
      split_ifs
      · rw [StringView.text_removePrefix, hport]
      · rw [hport]
  · rw [if_neg hbracket, if_neg hbracket]
    have hcuts := cuts_left h (ascii ":")
    generalize splitLeftAtFirstOf u.uriStr remainder (ascii ":") = views at hcuts ⊢
    generalize (cut (ascii ":") (remainder.text u.uriStr)).getD _ = texts at hcuts ⊢
    refine ⟨_, rfl, ?_⟩
    simp only [parts, hcuts.fst, hcuts.snd]

/-- The parts that `parseAuthority` reads, of a URI that has none of them yet. -/
theorem parseAuthority_spec (h : u.authority.Within u.uriStr) (hnone : u.userName = {} ∧
    u.userPassword = {} ∧ u.host = {} ∧ u.port = {}) :
    match readAuthority (u.authority.text u.uriStr) with
    | none => ∃ what v, u.parseAuthority = (v, .error what)
    | some ((userName, userPassword), host, port) => ∃ v, u.parseAuthority = (v, .ok ()) ∧
        v.parts = { u.parts with userName, userPassword, host, port } := by
  obtain ⟨hname, hpassword, hhost, hport⟩ := hnone
  have hcuts := cuts_right h (ascii "@")
  unfold parseAuthority
  by_cases hempty : u.authority.size = 0
  · rw [if_pos hempty, h.size_eq_zero.mp hempty]
    refine ⟨u, rfl, ?_⟩
    simp [parts, hname, hpassword, hhost, hport]
  rw [if_neg hempty, readAuthority]
  generalize splitRightAtFirstOf u.uriStr u.authority (ascii "@") = views at hcuts ⊢
  generalize (cut (ascii "@") (u.authority.text u.uriStr)).getD _ = texts at hcuts ⊢
  obtain ⟨userInfo, remainder⟩ := views
  obtain ⟨userInfoText, rest⟩ := texts
  obtain ⟨huser, hrest, hwithin, hwithinRest⟩ := hcuts
  simp only at huser hrest hwithin hwithinRest ⊢
  subst hrest
  by_cases hanonymous : userInfo.size = 0
  · rw [if_pos hanonymous, ← huser, hwithin.size_eq_zero.mp hanonymous]
    have hhosts := parseHost_spec hwithinRest
    cases hread : readHost (remainder.text u.uriStr) with
    | none =>
      rw [hread] at hhosts
      obtain ⟨what, hwhat⟩ := hhosts
      exact ⟨what, u, hwhat⟩
    | some texts =>
      rw [hread] at hhosts
      obtain ⟨v, hv, hparts⟩ := hhosts
      refine ⟨v, hv, hparts.trans ?_⟩
      simp [parts, hname, hpassword]
  · rw [if_neg hanonymous, ← huser]
    obtain ⟨hnameText, hpasswordText, -, -⟩ := cuts_left hwithin (ascii ":")
    generalize splitLeftAtFirstOf u.uriStr userInfo (ascii ":") = views at hnameText hpasswordText ⊢
    generalize (cut (ascii ":") (userInfo.text u.uriStr)).getD _ = texts
      at hnameText hpasswordText ⊢
    have hhosts := parseHost_spec (u := { u with userName := views.1, userPassword := views.2 })
      hwithinRest
    cases hread : readHost (remainder.text u.uriStr) with
    | none =>
      rw [show readHost _ = none from hread] at hhosts
      obtain ⟨what, hwhat⟩ := hhosts
      exact ⟨what, _, hwhat⟩
    | some texts' =>
      rw [show readHost _ = some texts' from hread] at hhosts
      obtain ⟨v, hv, hparts⟩ := hhosts
      refine ⟨v, hv, hparts.trans ?_⟩
      simp [parts, hnameText, hpasswordText]

/-- **The parts of a URI** are those that are read from its string. -/
theorem parts_ofString (str : List UInt8) :
    (ofString str).toOption.map parts = UriParts.read str := by
  have hscheme := cuts_right (StringView.Within.whole str) (ascii "://")
  rw [StringView.text_whole] at hscheme
  unfold ofString parse UriParts.read
  simp only
  generalize splitRightAtFirstOf str (.whole str) (ascii "://") = views at hscheme ⊢
  generalize (cut (ascii "://") str).getD _ = texts at hscheme ⊢
  obtain ⟨scheme, remainder⟩ := views
  obtain ⟨schemeText, rest⟩ := texts
  obtain ⟨hschemeText, hrest, hwithin, hwithinRest⟩ := hscheme
  simp only at hschemeText hrest hwithin hwithinRest ⊢
  subst hschemeText hrest
  by_cases hempty : scheme.size = 0
  · rw [if_pos hempty, if_pos (hwithin.size_eq_zero.mp hempty)]
    have hpath := cuts_right hwithinRest (ascii ":")
    simp only [Except.toOption, Option.map_some, parts, hpath.fst, hpath.snd, StringView.text_empty]
  · rw [if_neg hempty, if_neg fun h => hempty (hwithin.size_eq_zero.mpr h)]
    have hpath := cuts_before hwithinRest 0x2F
    have hslash : ascii "/" = [0x2F] := rfl
    rw [hslash]
    generalize splitBeforeFirstOf str remainder [0x2F] = views at hpath ⊢
    generalize (cut [0x2F] (remainder.text str)).elim _ _ = texts at hpath ⊢
    obtain ⟨authority, path⟩ := views
    obtain ⟨authorityText, pathText⟩ := texts
    obtain ⟨hauthorityText, hpathText, hwithinAuthority, -⟩ := hpath
    simp only at hauthorityText hpathText hwithinAuthority ⊢
    subst hauthorityText hpathText
    have hauthority := parseAuthority_spec (u := { uriStr := str, scheme, authority, path })
      hwithinAuthority ⟨rfl, rfl, rfl, rfl⟩
    cases hread : readAuthority (authority.text str) with
    | none =>
      rw [show readAuthority _ = none from hread] at hauthority
      obtain ⟨what, v, hv⟩ := hauthority
      rw [hv]
      rfl
    | some texts =>
      rw [show readAuthority _ = some texts from hread] at hauthority
      obtain ⟨v, hv, hparts⟩ := hauthority
      rw [hv]
      exact congrArg some hparts

end Uri

/-! ## The syntax -/

/-- Free of the delimiters of the syntax. -/
def Undelimited (str : List UInt8) : Prop := ∀ b ∈ str, b ∉ ascii ":/@[]"

/-- An IPv6 address has colons, but none of the other delimiters. -/
def IsIpv6 (str : List UInt8) : Prop := 0x3A ∈ str ∧ ∀ b ∈ str, b ∉ ascii "/@[]"

/-- `[user[:password]@]host[:port]` -/
structure UriAuthority where
  user : Option (List UInt8 × Option (List UInt8))
  host : List UInt8
  port : Option (List UInt8)

namespace UriAuthority

variable (a : UriAuthority)

def userText : List UInt8 :=
  match a.user with
  | none => []
  | some (userName, none) => userName ++ ascii "@"
  | some (userName, some userPassword) => userName ++ ascii ":" ++ userPassword ++ ascii "@"

def portText : List UInt8 :=
  match a.port with
  | none => []
  | some port => ascii ":" ++ port

def text : List UInt8 := a.userText ++ Uri.delimited a.host ++ a.portText

def userName : List UInt8 := (a.user.map Prod.fst).getD []

def userPassword : List UInt8 := (a.user.bind Prod.snd).getD []

/-- The parts are free of delimiters; the host may be empty. -/
structure Readable : Prop where
  userName {userName : List UInt8} {userPassword : Option (List UInt8)} :
    a.user = some (userName, userPassword) → Undelimited userName
  userPassword {userName userPassword : List UInt8} :
    a.user = some (userName, some userPassword) → Undelimited userPassword
  host : Undelimited a.host ∨ IsIpv6 a.host
  port {port : List UInt8} : a.port = some port → Undelimited port

end UriAuthority

/-- `scheme://authority[path]` and `scheme:path` -/
inductive UriForm
  | withAuthority (scheme : List UInt8) (authority : UriAuthority) (path : List UInt8)
  | plain (scheme path : List UInt8)

namespace UriForm

def text : UriForm → List UInt8
  | .withAuthority scheme authority path => scheme ++ ascii "://" ++ (authority.text ++ path)
  | .plain scheme path => scheme ++ ascii ":" ++ path

def parts : UriForm → UriParts
  | .withAuthority scheme a path =>
    { scheme, userName := a.userName, userPassword := a.userPassword
      host := a.host, port := a.port.getD [], path }
  | .plain scheme path => { scheme, path }

/-- A path without an authority that does not make the string one with an authority. -/
def PlainPath (path : List UInt8) : Prop := cut (ascii "://") (ascii ":" ++ path) = none

def Valid : UriForm → Prop
  | .withAuthority scheme a path => (scheme ≠ [] ∧ Undelimited scheme) ∧
      (a.Readable ∧ a.host ≠ []) ∧ (path = [] ∨ path.head? = some 0x2F)
  | .plain scheme path => (scheme ≠ [] ∧ Undelimited scheme) ∧ PlainPath path

end UriForm

section Read

variable {a : UriAuthority} {str scheme host port path rest : List UInt8} {b : UInt8}

theorem Undelimited.notMem (h : Undelimited str) (hb : b ∈ ascii ":/@[]") : b ∉ str :=
  fun hmem => h b hmem hb

theorem delimited_of_undelimited (h : Undelimited host) : Uri.delimited host = host :=
  if_neg (h.notMem (by decide))

theorem delimited_of_isIpv6 (h : IsIpv6 host) :
    Uri.delimited host = ascii "[" ++ host ++ ascii "]" := if_pos h.1

theorem not_bracket (hbracket : 0x5B ∉ host) (hrest : rest.head? ≠ some 0x5B) :
    ¬(ascii "[").isPrefixOf (host ++ rest) = true := by
  rw [List.isPrefixOf_iff_prefix]
  rintro ⟨u, hu⟩
  cases host with
  | nil => exact hrest (by rw [← List.nil_append rest, ← hu]; rfl)
  | cons x host =>
    have hx : (0x5B : UInt8) = x := (List.cons.inj hu).1
    exact hbracket (hx ▸ List.mem_cons_self)

/-- What is not a bracket is read up to the colon. -/
theorem readHost_name (hhost : 0x3A ∉ host) (hbracket : 0x5B ∉ host) (port : List UInt8) :
    readHost (host ++ 0x3A :: port) = some (host, port) ∧ readHost host = some (host, []) := by
  have hno (rest : List UInt8) (hrest : rest.head? ≠ some 0x5B) := not_bracket hbracket hrest
  have hno' := hno [] (by simp)
  rw [List.append_nil] at hno'
  have hcut : cut (ascii ":") (host ++ 0x3A :: port) = some (host, port) := cut_eq (d := []) hhost
  have hnone : cut (ascii ":") host = none := cut_eq_none hhost
  rw [readHost, if_neg (hno _ (by simp)), hcut, readHost, if_neg hno', hnone]
  exact ⟨rfl, rfl⟩

/-- What is in brackets is read up to the closing one. -/
theorem readHost_bracket (hhost : 0x5D ∉ host) (rest : List UInt8) :
    readHost (ascii "[" ++ host ++ ascii "]" ++ rest) =
      some (host, if (ascii ":").isPrefixOf rest then rest.drop 1 else rest) := by
  have hyes : (ascii "[").isPrefixOf (ascii "[" ++ host ++ ascii "]" ++ rest) = true := by
    rw [List.isPrefixOf_iff_prefix, List.append_assoc, List.append_assoc]
    exact List.prefix_append _ _
  have hmem : (0x5D : UInt8) ∉ ascii "[" ++ host := by
    rw [List.mem_append, not_or]
    exact ⟨by decide, hhost⟩
  have hcut : cut (ascii "]") (ascii "[" ++ host ++ ascii "]" ++ rest) =
      some (ascii "[" ++ host, rest) := by
    rw [List.append_assoc]
    exact cut_eq (d := []) hmem
  rw [readHost, if_pos hyes, hcut]
  rfl

/-- A host is read up to the colon behind it. -/
theorem readHost_delimited (h : Undelimited host ∨ IsIpv6 host) (port : List UInt8) :
    readHost (Uri.delimited host ++ 0x3A :: port) = some (host, port) ∧
      readHost (Uri.delimited host) = some (host, []) := by
  rcases h with hname | hipv6
  · rw [delimited_of_undelimited hname]
    exact readHost_name (hname.notMem (by decide)) (hname.notMem (by decide)) port
  · have hclose : (0x5D : UInt8) ∉ host := fun hmem => hipv6.2 _ hmem (by decide)
    have hnone := readHost_bracket hclose []
    rw [List.append_nil] at hnone
    rw [delimited_of_isIpv6 hipv6, readHost_bracket hclose _, hnone]
    exact ⟨rfl, rfl⟩

/-- A host is read with its port. -/
theorem readHost_text (h : a.Readable) :
    readHost (Uri.delimited a.host ++ a.portText) = some (a.host, a.port.getD []) := by
  rw [UriAuthority.portText]
  cases a.port with
  | none => rw [List.append_nil, (readHost_delimited h.host []).2]; rfl
  | some port => exact (readHost_delimited h.host port).1

/-- What is before the first "@" is the user info. -/
theorem readAuthority_user (h : 0x40 ∉ str) (rest : List UInt8) :
    readAuthority (str ++ 0x40 :: rest) =
      (readHost rest).map fun host => ((cut (ascii ":") str).getD (str, []), host) := by
  have hcut : cut (ascii "@") (str ++ 0x40 :: rest) = some (str, rest) := cut_eq (d := []) h
  rw [readAuthority, hcut]
  rfl

theorem readAuthority_anonymous (h : 0x40 ∉ str) :
    readAuthority str = (readHost str).map fun host => (([], []), host) := by
  have hcut : cut (ascii "@") str = none := cut_eq_none h
  rw [readAuthority, hcut]
  rfl

/-- A symbol that is neither a colon nor a bracket is not in a host. -/
theorem notMem_delimited (h : Undelimited host ∨ IsIpv6 host) (hb : b = 0x2F ∨ b = 0x40) :
    b ∉ Uri.delimited host := by
  rcases h with hname | hipv6
  · rw [delimited_of_undelimited hname]
    rcases hb with rfl | rfl
    · exact hname.notMem (by decide)
    · exact hname.notMem (by decide)
  · rw [delimited_of_isIpv6 hipv6]
    have hhost : b ∉ host := fun hmem => hipv6.2 b hmem (by rcases hb with rfl | rfl <;> decide)
    have hopen : b ∉ ascii "[" := by rcases hb with rfl | rfl <;> decide
    have hclose : b ∉ ascii "]" := by rcases hb with rfl | rfl <;> decide
    simp only [List.mem_append, not_or]
    exact ⟨⟨hopen, hhost⟩, hclose⟩

theorem notMem_portText (h : a.Readable) (hb : b = 0x2F ∨ b = 0x40) : b ∉ a.portText := by
  rw [UriAuthority.portText]
  cases hport : a.port with
  | none => exact List.not_mem_nil
  | some port =>
    have hrest : b ∉ port := (h.port hport).notMem (by rcases hb with rfl | rfl <;> decide)
    have hcolon : b ∉ ascii ":" := by rcases hb with rfl | rfl <;> decide
    simp only [List.mem_append, not_or]
    exact ⟨hcolon, hrest⟩

/-- The user info is read, unless there is none and the rest has one. -/
theorem readAuthority_userText (h : a.Readable) (hrest : a.user = none → 0x40 ∉ rest) :
    readAuthority (a.userText ++ rest) =
      (readHost rest).map fun host => ((a.userName, a.userPassword), host) := by
  rw [UriAuthority.userText, UriAuthority.userName, UriAuthority.userPassword]
  cases huser : a.user with
  | none => exact readAuthority_anonymous (hrest huser)
  | some user =>
    obtain ⟨userName, _ | userPassword⟩ := user
    · have hname := h.userName huser
      have hnone : cut (ascii ":") userName = none := cut_eq_none (hname.notMem (by decide))
      have hread := readAuthority_user
        (hname.notMem (by decide : 0x40 ∈ ascii ":/@[]")) rest
      rw [hnone] at hread
      rw [List.append_assoc]
      exact hread
    · have hname := h.userName huser
      have hpassword := h.userPassword huser
      have hcut : cut (ascii ":") (userName ++ 0x3A :: userPassword) =
          some (userName, userPassword) := cut_eq (d := []) (hname.notMem (by decide))
      have hat : (0x40 : UInt8) ∉ userName ++ 0x3A :: userPassword := by
        rw [List.mem_append, List.mem_cons, not_or, not_or]
        exact ⟨hname.notMem (by decide), by decide, hpassword.notMem (by decide)⟩
      have hread := readAuthority_user hat rest
      rw [hcut] at hread
      have htext : userName ++ ascii ":" ++ userPassword ++ ascii "@" ++ rest =
          (userName ++ 0x3A :: userPassword) ++ 0x40 :: rest := by
        simp [ascii]
      rw [htext]
      exact hread

/-- **An authority** is read as its parts. -/
theorem readAuthority_text (h : a.Readable) : readAuthority a.text =
    some ((a.userName, a.userPassword), a.host, a.port.getD []) := by
  have hat : (0x40 : UInt8) ∉ Uri.delimited a.host ++ a.portText := by
    rw [List.mem_append, not_or]
    exact ⟨notMem_delimited h.host (.inr rfl), notMem_portText h (.inr rfl)⟩
  rw [UriAuthority.text, List.append_assoc, readAuthority_userText h fun _ => hat, readHost_text h]
  rfl

theorem notMem_userText (h : a.Readable) : (0x2F : UInt8) ∉ a.userText := by
  rw [UriAuthority.userText]
  cases huser : a.user with
  | none => simp
  | some user =>
    obtain ⟨userName, _ | userPassword⟩ := user
    · have hname := (h.userName huser).notMem (by decide : 0x2F ∈ ascii ":/@[]")
      simp [hname, ascii]
    · have hname := (h.userName huser).notMem (by decide : 0x2F ∈ ascii ":/@[]")
      have hpassword := (h.userPassword huser).notMem (by decide : 0x2F ∈ ascii ":/@[]")
      simp [hname, hpassword, ascii]

theorem notMem_text (h : a.Readable) : (0x2F : UInt8) ∉ a.text := by
  rw [UriAuthority.text]
  simp only [List.mem_append, not_or]
  exact ⟨⟨notMem_userText h, notMem_delimited h.host (.inl rfl)⟩, notMem_portText h (.inl rfl)⟩

/-- A string with a scheme before "://" is read up to the slash. -/
theorem read_withAuthority (hscheme : scheme ≠ [] ∧ Undelimited scheme) (hslash : 0x2F ∉ str)
    (hpath : path = [] ∨ path.head? = some 0x2F) :
    UriParts.read (scheme ++ ascii "://" ++ (str ++ path)) =
      (readAuthority str).map fun ((userName, userPassword), host, port) =>
        { scheme, userName, userPassword, host, port, path } := by
  have hcut : cut (ascii "://") (scheme ++ ascii "://" ++ (str ++ path)) =
      some (scheme, str ++ path) := by
    rw [List.append_assoc]
    exact cut_eq (d := ascii "//") (hscheme.2.notMem (by decide))
  rw [UriParts.read, hcut]
  simp only [Option.getD_some]
  rw [if_neg hscheme.1]
  rcases hpath with rfl | hpath
  · have hnone : cut (ascii "/") str = none := cut_eq_none hslash
    rw [List.append_nil, hnone]
    rfl
  · cases path with
    | nil => cases hpath
    | cons x path =>
      obtain rfl : x = 0x2F := Option.some_inj.mp hpath
      have hfound : cut (ascii "/") (str ++ 0x2F :: path) = some (str, path) :=
        cut_eq (d := []) hslash
      rw [hfound]
      rfl

/-- A host without brackets is read up to the first colon, whatever it is. -/
theorem read_socket (hscheme : scheme ≠ [] ∧ Undelimited scheme) (hhost : Undelimited host)
    (port : List UInt8) (hslash : 0x2F ∉ port) (hat : 0x40 ∉ port) :
    UriParts.read (scheme ++ ascii "://" ++ (host ++ 0x3A :: port)) =
      some { scheme, host, port, path := [] } := by
  have hdelimiter : ∀ b ∈ ascii "/@", b ∈ ascii ":/@[]" ∧ b ≠ 0x3A := by decide +kernel
  have hnot (b : UInt8) (hb : b ∈ ascii "/@") (hport : b ∉ port) : b ∉ host ++ 0x3A :: port := by
    rw [List.mem_append, List.mem_cons, not_or, not_or]
    exact ⟨hhost.notMem (hdelimiter b hb).1, (hdelimiter b hb).2, hport⟩
  have hread := read_withAuthority hscheme (hnot 0x2F (by decide) hslash) (.inl (Eq.refl []))
  rw [List.append_nil] at hread
  rw [hread, readAuthority_anonymous (hnot 0x40 (by decide) hat),
    (readHost_name (hhost.notMem (by decide)) (hhost.notMem (by decide)) port).1]
  rfl

/-- The path that is read behind an authority begins with a slash. -/
theorem path_read {q : UriParts} (hcut : cut (ascii "://") str = some (scheme, rest))
    (hscheme : scheme ≠ []) (h : UriParts.read str = some q) :
    (q.path = [] ∨ q.path.head? = some 0x2F) ∧ q.path.length ≤ rest.length := by
  rw [UriParts.read, hcut] at h
  simp only [Option.getD_some] at h
  rw [if_neg hscheme] at h
  obtain ⟨texts, -, rfl⟩ := Option.map_eq_some_iff.mp h
  unfold cut
  cases hfind : findDelimiter (ascii "/") rest with
  | none => exact ⟨.inl rfl, Nat.zero_le _⟩
  | some position =>
    obtain ⟨behind, hbehind⟩ := prefix_of_findDelimiter hfind
    refine ⟨.inr rfl, ?_⟩
    have hlt : position < rest.length := by
      rw [← not_le]
      intro hle
      rw [List.drop_of_length_le hle] at hbehind
      cases hbehind
    have hlength : (ascii "/").length = 1 := rfl
    simp only [Option.map_some, Option.elim_some, List.length_cons, List.length_drop, hlength]
    omega

/-- **A string of the syntax** is read as its parts. -/
theorem read_text (form : UriForm) (h : form.Valid) :
    UriParts.read form.text = some form.parts := by
  cases form with
  | withAuthority scheme a path =>
    obtain ⟨hscheme, ⟨hreadable, -⟩, hpath⟩ := h
    rw [UriForm.text, read_withAuthority hscheme (notMem_text hreadable) hpath,
      readAuthority_text hreadable]
    rfl
  | plain scheme path =>
    obtain ⟨hscheme, hplain⟩ := h
    have hcolon : (0x3A : UInt8) ∉ scheme := hscheme.2.notMem (by decide)
    have hnone : cut (ascii "://") (scheme ++ ascii ":" ++ path) = none := by
      rw [List.append_assoc]
      exact cut_append_eq_none hcolon hplain
    have hcut : cut (ascii ":") (scheme ++ ascii ":" ++ path) = some (scheme, path) := by
      rw [List.append_assoc]
      exact cut_eq (d := []) hcolon
    rw [UriForm.text, UriParts.read, hnone]
    simp only [Option.getD_none, if_true, hcut]
    rfl

end Read

end Dots
