import Dots.Tools.Form
import Mathlib.Data.List.TakeWhile

/-!
# The setters of a URI

* `Points`: where a view points, `Uri.Located`.
* `UriForm.Works`: where a setter changes its part and no other one.
* **`UriForm.sets_iff`**.
-/

set_option autoImplicit false

namespace Dots

/-! ## Where the views point -/

/-- A view of a text behind another one. -/
structure Points (str : List UInt8) (v : StringView) (before text : List UInt8) : Prop where
  data : text ≠ [] → v.data = some before.length
  size : v.size = text.length
  isPrefix : before ++ text <+: str

section Points

variable {str before text a b d : List UInt8} {v : StringView} {c : UInt8} {n : ℕ}

theorem Points.text_eq (h : Points str v before text) : v.text str = text := by
  by_cases hempty : text = []
  · subst hempty
    unfold StringView.text
    rw [h.size]
    split <;> rfl
  · obtain ⟨behind, hbehind⟩ := h.isPrefix
    rw [StringView.text, h.data hempty, h.size, ← hbehind, List.append_assoc]
    simp

theorem Points.size_eq_zero (h : Points str v before text) : v.size = 0 ↔ text = [] := by
  rw [h.size, List.length_eq_zero_iff]

theorem points_whole (str : List UInt8) : Points str (.whole str) [] str :=
  ⟨fun _ => rfl, rfl, List.prefix_refl str⟩

theorem points_empty (h : before <+: str) : Points str {} before [] :=
  ⟨fun hne => absurd rfl hne, rfl, by rwa [List.append_nil]⟩

theorem Points.front (h : Points str v before (a ++ b)) :
    Points str (v.front a.length) before a where
  data hne := h.data fun hnil => hne (List.append_eq_nil_iff.mp hnil).1
  size := by
    show min a.length v.size = a.length
    rw [h.size, List.length_append]
    omega
  isPrefix := by
    refine List.IsPrefix.trans ?_ h.isPrefix
    rw [← List.append_assoc]
    exact List.prefix_append _ _

theorem Points.behind (h : Points str v before (a ++ b)) :
    Points str (v.removePrefix a.length) (before ++ a) b where
  data hne := by
    have hdata := h.data fun hnil => hne (List.append_eq_nil_iff.mp hnil).2
    rw [StringView.removePrefix, hdata, List.length_append]
    rfl
  size := by
    show v.size - a.length = b.length
    rw [h.size, List.length_append]
    omega
  isPrefix := by
    rw [List.append_assoc]
    exact h.isPrefix

/-- The delimiter is found at the end of what does not have its first symbol. -/
theorem Points.find (h : Points str v before (a ++ c :: (d ++ b))) (hc : c ∉ a) :
    findDelimiter (c :: d) (v.text str) = some a.length := by
  rw [h.text_eq, findDelimiter_append hc, findDelimiter_self, Option.map_some, Nat.zero_add]

theorem Points.behind_delimiter (h : Points str v before (a ++ c :: (d ++ b))) :
    Points str (v.removePrefix (a.length + (c :: d).length)) (before ++ (a ++ c :: d)) b := by
  have hsplit : a ++ c :: (d ++ b) = (a ++ c :: d) ++ b := by simp
  rw [hsplit] at h
  have hbehind := h.behind
  rwa [List.length_append] at hbehind

theorem Points.not_found (h : Points str v before text) (hc : c ∉ text) :
    findDelimiter (c :: d) (v.text str) = none := by
  rw [h.text_eq, findDelimiter_eq_none hc]

/-- A part is replaced. -/
theorem Points.replaced {u : Uri} {behind replacement : List UInt8}
    (h : Points u.uriStr v before text) (hne : text ≠ [])
    (hstr : u.uriStr = before ++ (text ++ behind)) :
    u.replaced v replacement = some (before ++ (replacement ++ behind)) := by
  have hle : before.length ≤ u.uriStr.length := by
    rw [hstr, List.length_append]
    omega
  have htake : u.uriStr.take before.length = before := by rw [hstr, List.take_left]
  have hdrop : u.uriStr.drop (before.length + text.length) = behind := by
    rw [hstr, ← List.append_assoc, ← List.length_append, List.drop_left]
  rw [Uri.replaced, h.data hne, h.size]
  simp only [if_pos hle, htake, hdrop, List.append_assoc]

/-- A view with the separator before it. -/
theorem Points.withSeparator (h : Points str v (before ++ [c]) text) (hne : text ≠ []) :
    Points str (Uri.withSeparator v) before (c :: text) where
  data _ := by
    rw [Uri.withSeparator, h.data hne, List.length_append]
    rfl
  size := by
    show v.size + 1 = _
    rw [h.size]
    rfl
  isPrefix := by
    have hprefix := h.isPrefix
    rwa [List.append_assoc] at hprefix

end Points

/-! ## The views of a URI with an authority -/

namespace UriAuthority

variable (a : UriAuthority)

def passwordMark : List UInt8 :=
  match a.user with
  | some (_, some _) => ascii ":"
  | _ => []

def userMark : List UInt8 := if a.user.isSome then ascii "@" else []

def portMark : List UInt8 := if a.port.isSome then ascii ":" else []

/-- The user name and the password. -/
def userInfo : List UInt8 := a.userName ++ (a.passwordMark ++ a.userPassword)

theorem userText_eq :
    a.userText = a.userName ++ (a.passwordMark ++ (a.userPassword ++ a.userMark)) := by
  rw [userText, userName, passwordMark, userPassword, userMark]
  rcases a.user with _ | ⟨userName, _ | userPassword⟩
  · rfl
  · rfl
  · simp

theorem portText_eq : a.portText = a.portMark ++ a.port.getD [] := by
  rw [portText, portMark]
  cases a.port <;> rfl

variable {a} in
theorem notMem_userInfo (h : a.Readable) : (0x40 : UInt8) ∉ a.userInfo := by
  rw [userInfo, userName, passwordMark, userPassword]
  rcases huser : a.user with _ | ⟨userName, _ | userPassword⟩
  · simp
  · have hname := (h.userName huser).notMem (by decide : 0x40 ∈ ascii ":/@[]")
    simpa using hname
  · have hname := (h.userName huser).notMem (by decide : 0x40 ∈ ascii ":/@[]")
    have hpassword := (h.userPassword huser).notMem (by decide : 0x40 ∈ ascii ":/@[]")
    simp [hname, hpassword, ascii]

end UriAuthority

/-- The bracket before an IPv6 host. -/
def openMark (host : List UInt8) : List UInt8 := if 0x3A ∈ host then ascii "[" else []

def closeMark (host : List UInt8) : List UInt8 := if 0x3A ∈ host then ascii "]" else []

theorem delimited_eq (host : List UInt8) :
    Uri.delimited host = openMark host ++ (host ++ closeMark host) := by
  rw [Uri.delimited, openMark, closeMark]
  split_ifs
  · exact List.append_assoc ..
  · simp

namespace Uri

variable {u : Uri} {a : UriAuthority} {before : List UInt8} {remainder : StringView}

theorem parseHost_points (h : a.Readable)
    (hpoints : Points u.uriStr remainder before (delimited a.host ++ a.portText)) :
    ∃ hostDelimited host port,
      u.parseHost remainder = ({ u with hostDelimited, host, port }, .ok ()) ∧
        Points u.uriStr hostDelimited before (delimited a.host) ∧
        Points u.uriStr host (before ++ openMark a.host) a.host ∧
        Points u.uriStr port (before ++ (delimited a.host ++ a.portMark)) (a.port.getD []) := by
  unfold parseHost
  rcases h.host with hname | hipv6
  · have hcolon : (0x3A : UInt8) ∉ a.host := hname.notMem (by decide)
    have hbracket : ¬(ascii "[").isPrefixOf (remainder.text u.uriStr) = true := by
      rw [hpoints.text_eq, delimited_of_undelimited hname]
      refine not_bracket (hname.notMem (by decide)) ?_
      rw [UriAuthority.portText]
      cases a.port <;> simp [ascii]
    rw [if_neg hbracket]
    rw [delimited_of_undelimited hname, UriAuthority.portText] at hpoints
    rw [delimited_of_undelimited hname, openMark, if_neg hcolon, List.append_nil,
      UriAuthority.portMark]
    unfold splitLeftAtFirstOf
    cases hport : a.port with
    | none =>
      rw [hport] at hpoints
      simp only [List.append_nil] at hpoints
      have hnone : findDelimiter (ascii ":") (remainder.text u.uriStr) = none :=
        hpoints.not_found hcolon
      rw [hnone]
      refine ⟨_, _, _, rfl, hpoints, hpoints, ?_⟩
      simpa using points_empty hpoints.isPrefix
    | some port =>
      rw [hport] at hpoints
      have hpoints' : Points u.uriStr remainder before (a.host ++ 0x3A :: ([] ++ port)) := hpoints
      have hfind : findDelimiter (ascii ":") (remainder.text u.uriStr) = some a.host.length :=
        hpoints'.find hcolon
      rw [hfind]
      exact ⟨_, _, _, rfl, hpoints'.front, hpoints'.front, hpoints'.behind_delimiter⟩
  · have hclose : (0x5D : UInt8) ∉ a.host := fun hmem => hipv6.2 _ hmem (by decide)
    have htext := delimited_of_isIpv6 hipv6
    rw [htext, UriAuthority.portText_eq] at hpoints
    have hbracket : (ascii "[").isPrefixOf (remainder.text u.uriStr) = true := by
      rw [hpoints.text_eq, List.isPrefixOf_iff_prefix, List.append_assoc, List.append_assoc]
      exact List.prefix_append _ _
    rw [if_pos hbracket, htext, openMark, if_pos hipv6.1]
    have hpoints' : Points u.uriStr remainder before
        ((ascii "[" ++ a.host) ++ 0x5D :: ([] ++ (a.portMark ++ a.port.getD []))) := by
      simpa [ascii] using hpoints
    have hmem : (0x5D : UInt8) ∉ ascii "[" ++ a.host := by
      rw [List.mem_append, not_or]
      exact ⟨by decide, hclose⟩
    have hlength : (ascii "[" ++ a.host ++ ascii "]").length =
        (ascii "[" ++ a.host).length + 1 := by
      rw [List.length_append]
      rfl
    have hfind : findDelimiter (ascii "]") (remainder.text u.uriStr) =
        some (ascii "[" ++ a.host).length := hpoints'.find hmem
    have hdelimited := hpoints.front
    have hport := hpoints.behind
    rw [hlength] at hdelimited hport
    have hhost : Points u.uriStr
        (((remainder.front ((ascii "[" ++ a.host).length + 1)).removePrefix 1).front a.host.length)
        (before ++ ascii "[") a.host := by
      have hinner := hdelimited
      rw [List.append_assoc] at hinner
      exact hinner.behind.front
    have hsize : (remainder.front ((ascii "[" ++ a.host).length + 1)).size - 2 = a.host.length := by
      rw [hdelimited.size, List.length_append, List.length_append]
      show 1 + a.host.length + 1 - 2 = _
      omega
    have hone : (ascii "]").length = 1 := rfl
    unfold splitAfterFirstOf
    rw [hfind]
    simp only [hone, hsize]
    refine ⟨_, _, _, rfl, hdelimited, hhost, ?_⟩
    rw [hport.text_eq]
    rw [UriAuthority.portMark] at hport ⊢
    cases hsome : a.port with
    | none =>
      rw [hsome] at hport
      simpa [ascii] using hport
    | some port =>
      rw [hsome] at hport
      have hyes : (ascii ":").isPrefixOf
          ((if (some port).isSome = true then ascii ":" else []) ++ (some port).getD []) = true :=
        by
        rw [List.isPrefixOf_iff_prefix]
        exact List.prefix_append _ _
      rw [if_pos hyes]
      have hbehind := hport.behind
      rwa [List.append_assoc] at hbehind

/-- Where the views of an authority point. -/
structure AuthorityPoints (u : Uri) (before : List UInt8) (a : UriAuthority) : Prop where
  userName : Points u.uriStr u.userName before a.userName
  userPassword : Points u.uriStr u.userPassword (before ++ (a.userName ++ a.passwordMark))
    a.userPassword
  hostDelimited : Points u.uriStr u.hostDelimited (before ++ a.userText) (delimited a.host)
  host : Points u.uriStr u.host (before ++ a.userText ++ openMark a.host) a.host
  port : Points u.uriStr u.port (before ++ a.userText ++ (delimited a.host ++ a.portMark))
    (a.port.getD [])

theorem splitUserInfo_points {str : List UInt8} {v : StringView} (h : a.Readable)
    (hpoints : Points str v before a.userInfo) :
    Points str (splitLeftAtFirstOf str v (ascii ":")).1 before a.userName ∧
      Points str (splitLeftAtFirstOf str v (ascii ":")).2 (before ++ (a.userName ++ a.passwordMark))
        a.userPassword := by
  rw [UriAuthority.userInfo, UriAuthority.userName, UriAuthority.passwordMark,
    UriAuthority.userPassword] at *
  unfold splitLeftAtFirstOf
  rcases huser : a.user with _ | ⟨userName, _ | userPassword⟩
  · rw [huser] at hpoints
    have hnil : Points str v before [] := hpoints
    rw [show findDelimiter (ascii ":") (v.text str) = none from hnil.not_found (by simp)]
    refine ⟨hnil, ?_⟩
    simpa using points_empty hnil.isPrefix
  · rw [huser] at hpoints
    have hname : Points str v before userName := by simpa using hpoints
    have hcolon : (0x3A : UInt8) ∉ userName := (h.userName huser).notMem (by decide)
    rw [show findDelimiter (ascii ":") (v.text str) = none from hname.not_found hcolon]
    refine ⟨hname, ?_⟩
    simpa using points_empty hname.isPrefix
  · rw [huser] at hpoints
    have hpoints' : Points str v before (userName ++ 0x3A :: ([] ++ userPassword)) := hpoints
    have hcolon : (0x3A : UInt8) ∉ userName := (h.userName huser).notMem (by decide)
    rw [show findDelimiter (ascii ":") (v.text str) = some userName.length from
      hpoints'.find hcolon]
    exact ⟨hpoints'.front, hpoints'.behind_delimiter⟩

theorem parseAuthority_points (h : a.Readable) (hhost : a.host ≠ [])
    (hpoints : Points u.uriStr u.authority before a.text)
    (hnone : u.userName = {} ∧ u.userPassword = {}) :
    ∃ userName userPassword hostDelimited host port,
      u.parseAuthority = ({ u with userName, userPassword, hostDelimited, host, port }, .ok ()) ∧
        AuthorityPoints { u with userName, userPassword, hostDelimited, host, port } before a := by
  have hnonempty : u.authority.size ≠ 0 := by
    rw [Ne, hpoints.size_eq_zero, UriAuthority.text, delimited_eq]
    simp [hhost]
  have hbefore : before <+: u.uriStr := (List.prefix_append _ _).trans hpoints.isPrefix
  have hanonymous := points_empty hbefore
  unfold parseAuthority splitRightAtFirstOf
  rw [if_neg hnonempty]
  rw [UriAuthority.text, List.append_assoc] at hpoints
  cases huser : a.user with
  | none =>
    have huserText : a.userText = [] := by rw [UriAuthority.userText, huser]
    have hat : (0x40 : UInt8) ∉ delimited a.host ++ a.portText := by
      rw [List.mem_append, not_or]
      exact ⟨notMem_delimited h.host (.inr rfl), notMem_portText h (.inr rfl)⟩
    rw [huserText, List.nil_append] at hpoints
    have hnot : findDelimiter (ascii "@") (u.authority.text u.uriStr) = none :=
      hpoints.not_found hat
    obtain ⟨hostDelimited, host, port, hparse, hd, hh, hp⟩ := parseHost_points h hpoints
    rw [hnot]
    refine ⟨u.userName, u.userPassword, hostDelimited, host, port, hparse, ?_⟩
    have hempty : before ++ a.userText = before := by rw [huserText, List.append_nil]
    rw [← hempty] at hd hh hp
    refine ⟨?_, ?_, hd, hh, hp⟩
    · simpa [hnone.1, UriAuthority.userName, huser] using hanonymous
    · simpa [hnone.2, UriAuthority.userName, UriAuthority.passwordMark, UriAuthority.userPassword,
        huser] using hanonymous
  | some user =>
    have hmark : a.userMark = ascii "@" := by rw [UriAuthority.userMark, huser]; rfl
    have hinfo : a.userText = a.userInfo ++ ascii "@" := by
      rw [UriAuthority.userText_eq, hmark, UriAuthority.userInfo, List.append_assoc,
        List.append_assoc]
    have hat : (0x40 : UInt8) ∉ a.userInfo := UriAuthority.notMem_userInfo h
    rw [hinfo, List.append_assoc] at hpoints
    have hpoints' : Points u.uriStr u.authority before
        (a.userInfo ++ 0x40 :: ([] ++ (delimited a.host ++ a.portText))) := hpoints
    have hfind : findDelimiter (ascii "@") (u.authority.text u.uriStr) = some a.userInfo.length :=
      hpoints'.find hat
    have huserInfo := hpoints.front
    have hremainder : Points u.uriStr (u.authority.removePrefix (a.userInfo.length + 1))
        (before ++ a.userText) (delimited a.host ++ a.portText) := by
      rw [hinfo]
      exact hpoints'.behind_delimiter
    have hone : (ascii "@").length = 1 := rfl
    rw [hfind]
    simp only [hone, huserInfo.size_eq_zero]
    by_cases hempty : a.userInfo = []
    · have hname : a.userName = [] := (List.append_eq_nil_iff.mp hempty).1
      have hpassword := List.append_eq_nil_iff.mp (List.append_eq_nil_iff.mp hempty).2
      obtain ⟨hostDelimited, host, port, hparse, hd, hh, hp⟩ := parseHost_points h hremainder
      rw [if_pos hempty]
      refine ⟨u.userName, u.userPassword, hostDelimited, host, port, hparse, ?_, ?_, hd, hh, hp⟩
      · simpa [hnone.1, hname] using hanonymous
      · simpa [hnone.2, hname, hpassword.1, hpassword.2] using hanonymous
    · obtain ⟨hname, hpassword⟩ := splitUserInfo_points h huserInfo
      rw [if_neg hempty]
      generalize
        splitLeftAtFirstOf u.uriStr (u.authority.front a.userInfo.length) (ascii ":") = views
        at hname hpassword ⊢
      obtain ⟨hostDelimited, host, port, hparse, hd, hh, hp⟩ :=
        parseHost_points (u := { u with userName := views.1, userPassword := views.2 }) h hremainder
      exact ⟨views.1, views.2, hostDelimited, host, port, hparse, hname, hpassword, hd, hh, hp⟩

variable {scheme path : List UInt8}

/-- Where the views of a URI with an authority point. -/
structure Located (u : Uri) (schemeText : List UInt8) (a : UriAuthority) (pathText : List UInt8) :
    Prop where
  uriStr : u.uriStr = schemeText ++ ascii "://" ++ (a.text ++ pathText)
  scheme : Points u.uriStr u.scheme [] schemeText
  authority : Points u.uriStr u.authority (schemeText ++ ascii "://") a.text
  views : u.AuthorityPoints (schemeText ++ ascii "://") a
  path : Points u.uriStr u.path (schemeText ++ ascii "://" ++ a.text) pathText

theorem located_ofString (h : (UriForm.withAuthority scheme a path).Valid) :
    ∃ u, ofString (UriForm.withAuthority scheme a path).text = .ok u ∧
      u.Located scheme a path := by
  obtain ⟨hscheme, ⟨hreadable, hhost⟩, hpath⟩ := h
  set str := (UriForm.withAuthority scheme a path).text with hstr
  have hwhole :
      Points str (.whole str) [] (scheme ++ 0x3A :: (ascii "//" ++ (a.text ++ path))) := by
    have hself := points_whole str
    rwa [show str = scheme ++ 0x3A :: (ascii "//" ++ (a.text ++ path)) from
      List.append_assoc ..] at hself ⊢
  have hfind : findDelimiter (ascii "://") ((StringView.whole str).text str) = some scheme.length :=
    hwhole.find (hscheme.2.notMem (by decide))
  have hfront : Points str ((StringView.whole str).front scheme.length) [] scheme := hwhole.front
  have hremainder : Points str ((StringView.whole str).removePrefix (scheme.length + 3))
      (scheme ++ ascii "://") (a.text ++ path) := hwhole.behind_delimiter
  have hthree : (ascii "://").length = 3 := rfl
  have hsize : ((StringView.whole str).front scheme.length).size ≠ 0 := by
    rw [Ne, hfront.size_eq_zero]
    exact hscheme.1
  have hviews : ∃ authority rest, splitBeforeFirstOf str
      ((StringView.whole str).removePrefix (scheme.length + 3)) (ascii "/") = (authority, rest) ∧
      Points str authority (scheme ++ ascii "://") a.text ∧
      Points str rest (scheme ++ ascii "://" ++ a.text) path := by
    have hslash : (0x2F : UInt8) ∉ a.text := notMem_text hreadable
    unfold splitBeforeFirstOf
    cases path with
    | nil =>
      rw [List.append_nil] at hremainder
      rw [show findDelimiter (ascii "/") _ = none from hremainder.not_found hslash]
      exact ⟨_, _, rfl, hremainder, points_empty hremainder.isPrefix⟩
    | cons x path =>
      obtain rfl : x = 0x2F := by simpa using hpath
      rw [show findDelimiter (ascii "/") _ = some a.text.length from
        Points.find (d := []) hremainder hslash]
      exact ⟨_, _, rfl, hremainder.front, hremainder.behind⟩
  obtain ⟨authority, rest, hsplit, hauthority, hrest⟩ := hviews
  obtain ⟨userName, userPassword, hostDelimited, host, port, hparse, hlocated⟩ :=
    parseAuthority_points (u := { uriStr := str
                                  scheme := (StringView.whole str).front scheme.length
                                  authority, path := rest }) hreadable hhost hauthority ⟨rfl, rfl⟩
  refine ⟨_, ?_, hstr, hfront, hauthority, hlocated, hrest⟩
  unfold ofString parse splitRightAtFirstOf
  simp only [hfind, hthree, if_neg hsize, hsplit, hparse]

/-- Where the views of a URI without an authority point. -/
structure LocatedPlain (u : Uri) (schemeText pathText : List UInt8) : Prop where
  uriStr : u.uriStr = schemeText ++ ascii ":" ++ pathText
  scheme : Points u.uriStr u.scheme [] schemeText
  path : Points u.uriStr u.path (schemeText ++ ascii ":") pathText
  authority : u.authority = {}
  userName : u.userName = {}
  userPassword : u.userPassword = {}
  host : u.host = {}
  port : u.port = {}

theorem locatedPlain_ofString (h : (UriForm.plain scheme path).Valid) :
    ∃ u, ofString (UriForm.plain scheme path).text = .ok u ∧ u.LocatedPlain scheme path := by
  obtain ⟨hscheme, hplain⟩ := h
  set str := (UriForm.plain scheme path).text with hstr
  have hcolon : (0x3A : UInt8) ∉ scheme := hscheme.2.notMem (by decide)
  have hwhole : Points str (.whole str) [] (scheme ++ 0x3A :: ([] ++ path)) := by
    have hself := points_whole str
    rwa [show str = scheme ++ 0x3A :: ([] ++ path) from List.append_assoc ..] at hself ⊢
  have hnone : findDelimiter (ascii "://") ((StringView.whole str).text str) = none := by
    have hcut : cut (ascii "://") (scheme ++ (ascii ":" ++ path)) = none :=
      cut_append_eq_none hcolon hplain
    rw [hwhole.text_eq]
    exact Option.map_eq_none_iff.mp hcut
  have hfind : findDelimiter (ascii ":") ((StringView.whole str).text str) = some scheme.length :=
    hwhole.find hcolon
  refine ⟨{ uriStr := str
            scheme := (StringView.whole str).front scheme.length
            path := (StringView.whole str).removePrefix (scheme.length + 1) }, ?_, hstr,
    hwhole.front, hwhole.behind_delimiter, rfl, rfl, rfl, rfl, rfl⟩
  unfold ofString parse splitRightAtFirstOf
  simp only [hnone, if_pos, hfind]
  rfl

end Uri

/-! ## Changes -/

/-- The call of a setter with a value of the syntax. -/
inductive UriChange
  | scheme (scheme : List UInt8)
  | authority (authority : UriAuthority)
  | userName (userName : List UInt8)
  | userPassword (userPassword : List UInt8)
  | host (host : List UInt8)
  | port (port : List UInt8)
  | path (path : List UInt8)

namespace UriChange

def setter : UriChange → UriSetter
  | .scheme text => .scheme text
  | .authority a => .authority a.text
  | .userName text => .userName text
  | .userPassword text => .userPassword text
  | .host text => .host text
  | .port text => .port text
  | .path text => .path text

def Valid : UriChange → Prop
  | .scheme text => Undelimited text
  | .authority a => a.Readable
  | .userName text => Undelimited text
  | .userPassword text => Undelimited text
  | .host text => Undelimited text ∨ IsIpv6 text
  | .port text => Undelimited text
  | .path text => text = [] ∨ text.head? = some 0x2F

/-- The parts with one of them changed; an authority has those of the user and the host. -/
def expected (parts : UriParts) : UriChange → UriParts
  | .scheme text => { parts with scheme := text }
  | .authority a =>
    { parts with
      userName := a.userName, userPassword := a.userPassword
      host := a.host, port := a.port.getD [] }
  | .userName text => { parts with userName := text }
  | .userPassword text => { parts with userPassword := text }
  | .host text => { parts with host := text }
  | .port text => { parts with port := text }
  | .path text => { parts with path := text }

end UriChange

namespace Uri

variable (u : Uri)

/-- The part is changed and no other one, and a URI of the new string has these parts. -/
def Changes (change : UriChange) : Prop :=
  ∃ v, u.set change.setter = (v, .ok ()) ∧ v.parts = change.expected u.parts ∧
    (ofString v.uriStr).toOption.map parts = some (change.expected u.parts)

/-- A setter changes its part and no other one, or throws and leaves the URI as it was. The setter
of the authority does not throw. -/
def Sets : UriChange → Prop
  | .authority authority => u.Changes (.authority authority)
  | change => u.Changes change ∨ ∃ what, u.set change.setter = (u, .error what)

variable {u}

theorem uriStr_ofString {str : List UInt8} (h : ofString str = .ok u) : u.uriStr = str := by
  unfold ofString at h
  split at h
  · rename_i v _ hparse
    cases h
    have hkeep : (parse { uriStr := str }).1.uriStr = str := uriStr_parse
    rwa [hparse] at hkeep
  · cases h

/-- What is parsed does not depend on the URI before, apart from the authority. -/
theorem parse_parts (uriStr : List UInt8) :
    (parse { u with uriStr }).2 = (parse { uriStr }).2 ∧
      (parse { u with uriStr }).1.parts = (parse { uriStr }).1.parts := by
  by_cases h : HasScheme uriStr
  · rw [parse_of_hasScheme (u := { u with uriStr }) h]
    exact ⟨rfl, rfl⟩
  · rw [parse_of_not_hasScheme (u := { u with uriStr }) h,
      parse_of_not_hasScheme (u := { uriStr }) h]
    exact ⟨rfl, rfl⟩

theorem changes_iff {str : List UInt8} {change : UriChange} (hset : u.set change.setter =
    parse { u with uriStr := str }) :
    u.Changes change ↔ UriParts.read str = some (change.expected u.parts) := by
  obtain ⟨herror, hparts⟩ := parse_parts (u := u) str
  have hstr : (parse { u with uriStr := str }).1.uriStr = str := uriStr_parse
  rw [← parts_ofString]
  constructor
  · rintro ⟨v, hv, -, hread⟩
    rw [hset] at hv
    rw [hv] at hstr
    rwa [show v.uriStr = str from hstr] at hread
  · intro hread
    obtain ⟨w, hw, hexpected⟩ := Option.map_eq_some_iff.mp hread
    unfold ofString at hw
    cases hparse : parse { uriStr := str } with
    | mk w' error =>
      rw [hparse] at hw herror hparts
      obtain _ | ⟨⟩ := error
      · cases hw
      · cases hw
        refine ⟨_, hset.trans (Prod.ext rfl herror), hparts.trans hexpected, ?_⟩
        rw [hstr]
        exact hread

/-- **A setter** is right if the string that it has parsed is read as the parts. -/
theorem sets_iff_read {form new : List UInt8} {change : UriChange} (hu : ofString form = .ok u)
    (hedited : u.edited change.setter = some new) :
    u.Sets change ↔ UriParts.read new = some (change.expected u.parts) := by
  have hset : u.set change.setter = parse { u with uriStr := new } := by
    have heq := set_eq (u := u) change.setter
    rwa [hedited] at heq
  have hno : ¬∃ what, u.set change.setter = (u, .error what) := by
    rintro ⟨what, hwhat⟩
    rw [hset] at hwhat
    have hnew : new = u.uriStr := by
      have hkeep : (parse { u with uriStr := new }).1.uriStr = new := uriStr_parse
      rw [hwhat] at hkeep
      exact hkeep.symm
    have herror := (parse_parts (u := u) new).1
    rw [hwhat, hnew, uriStr_ofString hu] at herror
    unfold ofString at hu
    split at hu
    · rename_i hparse
      rw [hparse] at herror
      cases herror
    · cases hu
  rw [← changes_iff hset]
  cases change with
  | authority authority => exact Iff.rfl
  | _ => exact or_iff_left hno

/-- A setter that throws before it has anything parsed is right. -/
theorem sets_of_throws {change : UriChange} (hedited : u.edited change.setter = none)
    (hauthority : ∀ authority, change ≠ .authority authority) : u.Sets change := by
  have heq := set_eq (u := u) change.setter
  rw [hedited] at heq
  cases change with
  | authority authority => exact absurd rfl (hauthority authority)
  | _ => exact .inr heq

theorem parts_eq {form : UriForm} (hvalid : form.Valid) (hu : ofString form.text = .ok u) :
    u.parts = form.parts := by
  have hparts := parts_ofString form.text
  rw [hu, read_text form hvalid] at hparts
  exact Option.some_inj.mp hparts

end Uri

/-! ## Setters of a URI with an authority -/

section Located

variable {u : Uri} {scheme path : List UInt8} {a : UriAuthority}
  (hvalid : (UriForm.withAuthority scheme a path).Valid)
  (hu : Uri.ofString (UriForm.withAuthority scheme a path).text = .ok u)
  (hl : u.Located scheme a path)

include hvalid hu hl

theorem sets_scheme {text : List UInt8} (htext : Undelimited text) : u.Sets (.scheme text) := by
  by_cases hempty : text = []
  · exact Uri.sets_of_throws (if_pos hempty) fun _ => nofun
  have hstr : u.uriStr = [] ++ (scheme ++ (ascii "://" ++ (a.text ++ path))) := by
    rw [hl.uriStr, List.nil_append, List.append_assoc]
  have hedited : u.edited (UriChange.setter (.scheme text)) =
      some (text ++ ascii "://" ++ (a.text ++ path)) := by
    rw [UriChange.setter, Uri.edited, if_neg hempty, hl.scheme.replaced hvalid.1.1 hstr,
      List.nil_append, List.append_assoc]
  rw [Uri.sets_iff_read hu hedited, Uri.parts_eq hvalid hu]
  exact read_text (.withAuthority text a path) ⟨⟨hempty, htext⟩, hvalid.2⟩

theorem sets_path {text : List UInt8} (htext : text = [] ∨ text.head? = some 0x2F) :
    u.Sets (.path text) := by
  have hedited : u.edited (UriChange.setter (.path text)) =
      some (scheme ++ ascii "://" ++ (a.text ++ text)) := by
    have hguard : ¬(text ≠ [] ∧ text.head? ≠ some 0x2F) := by tauto
    have hstr : u.uriStr = scheme ++ ascii "://" ++ a.text ++ (path ++ []) := by
      rw [hl.uriStr, List.append_nil, List.append_assoc (scheme ++ ascii "://")]
    rw [UriChange.setter, Uri.edited, if_neg hguard]
    by_cases hempty : path = []
    · rw [if_pos (hl.path.size_eq_zero.mpr hempty), hstr, hempty]
      simp
    · rw [if_neg (mt hl.path.size_eq_zero.mp hempty), hl.path.replaced hempty hstr]
      simp
  rw [Uri.sets_iff_read hu hedited, Uri.parts_eq hvalid hu]
  exact read_text (.withAuthority scheme a text) ⟨hvalid.1, hvalid.2.1, htext⟩

omit hl in
/-- The setter has another authority parsed. -/
theorem sets_iff_readAuthority {change : UriChange}
    {str userName userPassword host port : List UInt8}
    (hedited : u.edited change.setter = some (scheme ++ ascii "://" ++ (str ++ path)))
    (hslash : 0x2F ∉ str) (hexpected : change.expected (UriForm.withAuthority scheme a path).parts =
      { scheme, userName, userPassword, host, port, path }) :
    u.Sets change ↔ readAuthority str = some ((userName, userPassword), host, port) := by
  rw [Uri.sets_iff_read hu hedited, Uri.parts_eq hvalid hu, hexpected,
    read_withAuthority hvalid.1 hslash hvalid.2.2]
  constructor
  · intro hread
    obtain ⟨⟨⟨name, password⟩, host', port'⟩, hsome, heq⟩ := Option.map_eq_some_iff.mp hread
    cases heq
    exact hsome
  · intro hread
    rw [hread]
    rfl

theorem sets_authority {b : UriAuthority} (hb : b.Readable) : u.Sets (.authority b) := by
  have hne : a.text ≠ [] := by
    rw [UriAuthority.text, delimited_eq]
    simp [hvalid.2.1.2]
  have hedited : u.edited (UriChange.setter (.authority b)) =
      some (scheme ++ ascii "://" ++ (b.text ++ path)) := by
    rw [UriChange.setter, Uri.edited, Uri.editedAuthority,
      if_neg (mt hl.authority.size_eq_zero.mp hne),
      hl.authority.replaced hne hl.uriStr]
  rw [sets_iff_readAuthority hvalid hu hedited (notMem_text hb) rfl]
  exact readAuthority_text hb

theorem sets_host {text : List UInt8} (htext : Undelimited text ∨ IsIpv6 text) :
    u.Sets (.host text) := by
  have hreadable : UriAuthority.Readable { a with host := text } :=
    ⟨hvalid.2.1.1.userName, hvalid.2.1.1.userPassword, htext, hvalid.2.1.1.port⟩
  have hne : a.text ≠ [] := by
    rw [UriAuthority.text, delimited_eq]
    simp [hvalid.2.1.2]
  have hhost : Uri.delimited a.host ≠ [] := by
    rw [delimited_eq]
    simp [hvalid.2.1.2]
  have hstr : u.uriStr = scheme ++ ascii "://" ++ a.userText ++
      (Uri.delimited a.host ++ (a.portText ++ path)) := by
    rw [hl.uriStr, UriAuthority.text]
    simp only [List.append_assoc]
  have hedited : u.edited (UriChange.setter (.host text)) = some (scheme ++ ascii "://" ++
      (UriAuthority.text { a with host := text } ++ path)) := by
    rw [UriChange.setter, Uri.edited, if_neg (mt hl.authority.size_eq_zero.mp hne),
      hl.views.hostDelimited.replaced hhost hstr]
    simp only [UriAuthority.text, List.append_assoc]
    rfl
  rw [sets_iff_readAuthority hvalid hu hedited (notMem_text hreadable) rfl]
  exact readAuthority_text hreadable

omit hvalid hu hl in
/-- What stands for the host, in its brackets if it has them. -/
theorem readHost_marks {str : List UInt8} (hclose : 0x5D ∉ str)
    (hname : 0x3A ∉ a.host → 0x3A ∉ str ∧ 0x5B ∉ str) :
    readHost (openMark a.host ++ (str ++ (closeMark a.host ++ a.portText))) =
      some (str, a.port.getD []) := by
  rw [openMark, closeMark, UriAuthority.portText]
  by_cases hcolon : (0x3A : UInt8) ∈ a.host
  · have hread (rest : List UInt8) := readHost_bracket hclose rest
    rw [if_pos hcolon, if_pos hcolon, ← List.append_assoc str, ← List.append_assoc,
      ← List.append_assoc, hread]
    cases a.port <;> rfl
  · obtain ⟨hcolonStr, hbracket⟩ := hname hcolon
    have hread (port : List UInt8) := readHost_name hcolonStr hbracket port
    rw [if_neg hcolon, if_neg hcolon, List.nil_append, List.nil_append]
    cases a.port with
    | none => rw [List.append_nil, (hread []).2]; rfl
    | some port => exact (hread port).1

omit hu in
/-- The string that has another text for the host. -/
theorem replaced_host (text : List UInt8) : u.replaced u.host text = some (scheme ++ ascii "://" ++
    (a.userText ++ (openMark a.host ++ (text ++ (closeMark a.host ++ a.portText))) ++ path)) := by
  have hstr : u.uriStr = scheme ++ ascii "://" ++ a.userText ++ openMark a.host ++
      (a.host ++ (closeMark a.host ++ a.portText ++ path)) := by
    rw [hl.uriStr, UriAuthority.text, delimited_eq]
    simp only [List.append_assoc]
  rw [hl.views.host.replaced hvalid.2.1.2 hstr]
  simp only [List.append_assoc]

omit hvalid hu hl in
theorem notMem_marks {str : List UInt8} {b : UInt8} (h : a.Readable) (hb : b = 0x2F ∨ b = 0x40)
    (hstr : b ∉ str) : b ∉ openMark a.host ++ (str ++ (closeMark a.host ++ a.portText)) := by
  have hopen : b ∉ openMark a.host := by
    rw [openMark]
    split_ifs
    · rcases hb with rfl | rfl <;> decide
    · exact List.not_mem_nil
  have hclose : b ∉ closeMark a.host := by
    rw [closeMark]
    split_ifs
    · rcases hb with rfl | rfl <;> decide
    · exact List.not_mem_nil
  simp only [List.mem_append, not_or]
  exact ⟨hopen, hstr, hclose, notMem_portText h hb⟩

omit hvalid hu hl in
/-- A host has no slash, no "@" and no closing bracket. -/
theorem notMem_host (h : a.Readable) {b : UInt8} (hb : b ∈ ascii "/@[]") : b ∉ a.host := by
  rcases h.host with hname | hipv6
  · refine hname.notMem ?_
    rw [show ascii ":/@[]" = 0x3A :: ascii "/@[]" from rfl]
    exact List.mem_cons_of_mem _ hb
  · exact fun hmem => hipv6.2 b hmem hb

omit hvalid hu hl in
/-- What stands for the host is read as the host. -/
theorem readAuthority_marks {str : List UInt8} (h : a.Readable) (hclose : 0x5D ∉ str)
    (hname : 0x3A ∉ a.host → 0x3A ∉ str ∧ 0x5B ∉ str) (hat : a.user = none → 0x40 ∉ str) :
    readAuthority (a.userText ++ (openMark a.host ++ (str ++ (closeMark a.host ++ a.portText)))) =
      some ((a.userName, a.userPassword), str, a.port.getD []) := by
  rw [readAuthority_userText h fun hnone => notMem_marks h (.inr rfl) (hat hnone),
    readHost_marks hclose hname]
  rfl

theorem sets_port_iff {text : List UInt8} (htext : Undelimited text) :
    u.Sets (.port text) ↔ a.port.getD [] ≠ [] ∨ a.port = none ∧ 0x3A ∉ a.host := by
  obtain ⟨hscheme, ⟨hreadable, hhost⟩, hpath⟩ := id hvalid
  by_cases hempty : a.port.getD [] = []
  · have hedited : u.edited (UriChange.setter (.port text)) = some (scheme ++ ascii "://" ++
        (a.userText ++ (openMark a.host ++ (a.host ++ ascii ":" ++ text ++
          (closeMark a.host ++ a.portText))) ++ path)) := by
      rw [UriChange.setter, Uri.edited, if_pos (hl.views.port.size_eq_zero.mpr hempty),
        if_neg (mt hl.views.host.size_eq_zero.mp hhost), hl.views.host.text_eq,
        replaced_host hvalid hl]
    have hmem {b : UInt8} (hb : b ∈ ascii "/@[]") : b ∉ a.host ++ ascii ":" ++ text := by
      have hcolon : b ∉ ascii ":" := by
        intro hmem
        rw [List.mem_singleton.mp hmem] at hb
        exact absurd hb (by decide)
      have hport : b ∉ text := htext.notMem (List.mem_cons_of_mem 0x3A hb)
      simp only [List.mem_append, not_or]
      exact ⟨⟨notMem_host hreadable hb, hcolon⟩, hport⟩
    have hslash : (0x2F : UInt8) ∉ a.userText ++ (openMark a.host ++ (a.host ++ ascii ":" ++ text ++
        (closeMark a.host ++ a.portText))) := by
      rw [List.mem_append, not_or]
      exact ⟨notMem_userText hreadable, notMem_marks hreadable (.inl rfl) (hmem (by decide))⟩
    rw [sets_iff_readAuthority hvalid hu hedited hslash rfl]
    show _ = some ((a.userName, a.userPassword), a.host, text) ↔ _
    by_cases hcolon : (0x3A : UInt8) ∈ a.host
    · rw [readAuthority_marks hreadable (hmem (by decide)) (absurd hcolon) fun _ =>
        hmem (by decide)]
      refine iff_of_false ?_ ?_
      · intro heq
        have hlength := congrArg List.length (Prod.ext_iff.mp (Prod.ext_iff.mp
          (Option.some_inj.mp heq)).2).1
        simp [ascii] at hlength
      · rintro (hne | ⟨-, hno⟩)
        · exact hne hempty
        · exact hno hcolon
    · -- Without brackets the port is read together with a colon that was there.
      have hat : (0x40 : UInt8) ∉ openMark a.host ++ (a.host ++ ascii ":" ++ text ++
          (closeMark a.host ++ a.portText)) := notMem_marks hreadable (.inr rfl) (hmem (by decide))
      have hmarks : openMark a.host ++ (a.host ++ ascii ":" ++ text ++
          (closeMark a.host ++ a.portText)) =
          Uri.delimited a.host ++ 0x3A :: (text ++ a.portText) := by
        rw [openMark, closeMark, if_neg hcolon, if_neg hcolon, Uri.delimited, if_neg hcolon]
        simp [ascii]
      rw [readAuthority_userText hreadable fun _ => hat, hmarks,
        (readHost_delimited hreadable.host _).1]
      have hport : text ++ a.portText = text ↔ a.port = none := by
        rw [List.append_right_eq_self, UriAuthority.portText]
        cases a.port <;> simp [ascii]
      simp [hport, hempty, hcolon]
  · obtain ⟨port, hport⟩ : ∃ port, a.port = some port := by
      cases hport : a.port with
      | none => exact absurd (by rw [hport]; rfl) hempty
      | some port => exact ⟨port, rfl⟩
    refine iff_of_true ?_ (.inl hempty)
    rw [hport, Option.getD_some] at hempty
    have hview := hl.views.port
    rw [hport, Option.getD_some, UriAuthority.portMark, hport] at hview
    have hfilled : u.port.size ≠ 0 := mt hview.size_eq_zero.mp hempty
    have hstr : u.uriStr = scheme ++ ascii "://" ++ a.userText ++ Uri.delimited a.host ++
        (0x3A :: port ++ path) := by
      rw [hl.uriStr, UriAuthority.text, UriAuthority.portText, hport]
      simp [ascii]
    by_cases hnone : text = []
    · have hreadable' : UriAuthority.Readable { a with port := none } :=
        ⟨hreadable.userName, hreadable.userPassword, hreadable.host, fun h => by cases h⟩
      have hview' : Points u.uriStr (Uri.withSeparator u.port)
          (scheme ++ ascii "://" ++ a.userText ++ Uri.delimited a.host) (0x3A :: port) := by
        refine Points.withSeparator ?_ hempty
        rw [List.append_assoc (scheme ++ ascii "://" ++ a.userText)]
        exact hview
      have hedited : u.edited (UriChange.setter (.port text)) = some (scheme ++ ascii "://" ++
          (UriAuthority.text { a with port := none } ++ path)) := by
        rw [UriChange.setter, Uri.edited, if_neg hfilled, if_pos hnone,
          hview'.replaced (by simp) hstr, hnone]
        simp [UriAuthority.text, UriAuthority.portText, UriAuthority.userText]
      rw [sets_iff_readAuthority hvalid hu hedited (notMem_text hreadable') rfl, hnone]
      exact readAuthority_text hreadable'
    · have hreadable' : UriAuthority.Readable { a with port := some text } :=
        ⟨hreadable.userName, hreadable.userPassword, hreadable.host,
          fun h => by cases h; exact htext⟩
      have hstr' : u.uriStr = scheme ++ ascii "://" ++ a.userText ++
          (Uri.delimited a.host ++ ascii ":") ++ (port ++ path) := by
        rw [hstr]
        simp [ascii]
      have hedited : u.edited (UriChange.setter (.port text)) = some (scheme ++ ascii "://" ++
          (UriAuthority.text { a with port := some text } ++ path)) := by
        rw [UriChange.setter, Uri.edited, if_neg hfilled, if_neg hnone]
        refine (hview.replaced hempty hstr').trans ?_
        simp [UriAuthority.text, UriAuthority.portText, UriAuthority.userText]
      rw [sets_iff_readAuthority hvalid hu hedited (notMem_text hreadable') rfl]
      exact readAuthority_text hreadable'

omit hl in
/-- The setter replaces what is before the "@", or a part of it. -/
theorem sets_of_user {change : UriChange} {userName : List UInt8}
    (userPassword : Option (List UInt8)) (hname : Undelimited userName)
    (hpassword : ∀ text, userPassword = some text → Undelimited text)
    (hedited : u.edited change.setter = some (scheme ++ ascii "://" ++
      (UriAuthority.text { a with user := some (userName, userPassword) } ++ path)))
    (hexpected : change.expected (UriForm.withAuthority scheme a path).parts =
      (UriForm.withAuthority scheme { a with user := some (userName, userPassword) } path).parts) :
    u.Sets change := by
  have hreadable : UriAuthority.Readable { a with user := some (userName, userPassword) } :=
    ⟨fun h => by cases h; exact hname, fun h => by cases h; exact hpassword _ rfl,
      hvalid.2.1.1.host, hvalid.2.1.1.port⟩
  rw [sets_iff_readAuthority hvalid hu hedited (notMem_text hreadable) hexpected]
  exact readAuthority_text hreadable

theorem sets_userName_iff {text : List UInt8} (htext : Undelimited text) :
    u.Sets (.userName text) ↔ a.userName ≠ [] ∨ a.user = none ∧ 0x3A ∉ a.host := by
  obtain ⟨hscheme, ⟨hreadable, hhost⟩, hpath⟩ := id hvalid
  by_cases hempty : a.userName = []
  · have hedited : u.edited (UriChange.setter (.userName text)) = some (scheme ++ ascii "://" ++
        (a.userText ++ (openMark a.host ++ (text ++ ascii "@" ++ a.host ++
          (closeMark a.host ++ a.portText))) ++ path)) := by
      rw [UriChange.setter, Uri.edited, if_pos (hl.views.userName.size_eq_zero.mpr hempty),
        if_neg (mt hl.views.host.size_eq_zero.mp hhost), hl.views.host.text_eq,
        replaced_host hvalid hl]
    by_cases hright : a.user = none ∧ 0x3A ∉ a.host
    · refine iff_of_true ?_ (.inr hright)
      refine sets_of_user hvalid hu none htext (fun _ h => by cases h) ?_ ?_
      · rw [hedited, openMark, closeMark, if_neg hright.2, if_neg hright.2]
        simp [UriAuthority.text, UriAuthority.portText, UriAuthority.userText, hright.1,
          Uri.delimited, hright.2]
      · simp [UriChange.expected, UriForm.parts, UriAuthority.userName, UriAuthority.userPassword,
          hright.1]
    · refine iff_of_false ?_ fun h => h.elim (absurd hempty) hright
      have hmem {b : UInt8} (hb : b = 0x2F ∨ b = 0x5D) : b ∉ text ++ ascii "@" ++ a.host := by
        have hname : b ∉ text := htext.notMem (by rcases hb with rfl | rfl <;> decide)
        have hat : b ∉ ascii "@" := by rcases hb with rfl | rfl <;> decide
        have hhost : b ∉ a.host := notMem_host hreadable (by rcases hb with rfl | rfl <;> decide)
        simp only [List.mem_append, not_or]
        exact ⟨⟨hname, hat⟩, hhost⟩
      have hslash : (0x2F : UInt8) ∉ a.userText ++ (openMark a.host ++
          (text ++ ascii "@" ++ a.host ++ (closeMark a.host ++ a.portText))) := by
        rw [List.mem_append, not_or]
        exact ⟨notMem_userText hreadable, notMem_marks hreadable (.inl rfl) (hmem (.inl rfl))⟩
      rw [sets_iff_readAuthority hvalid hu hedited hslash rfl]
      show ¬_ = some ((text, a.userPassword), a.host, a.port.getD [])
      by_cases huser : a.user = none
      · -- The name that is read has the bracket.
        have hcolon : (0x3A : UInt8) ∈ a.host := by tauto
        have hname : (0x40 : UInt8) ∉ ascii "[" ++ text := by
          rw [List.mem_append, not_or]
          exact ⟨by decide, htext.notMem (by decide)⟩
        have hnone : cut (ascii ":") (ascii "[" ++ text) = none := by
          refine cut_eq_none ?_
          rw [List.mem_append, not_or]
          exact ⟨by decide, htext.notMem (by decide)⟩
        have hmarks : a.userText ++ (openMark a.host ++ (text ++ ascii "@" ++ a.host ++
            (closeMark a.host ++ a.portText))) =
            (ascii "[" ++ text) ++ 0x40 :: (a.host ++ (closeMark a.host ++ a.portText)) := by
          rw [UriAuthority.userText, huser, openMark, if_pos hcolon]
          simp [ascii]
        rw [hmarks, readAuthority_user hname _, hnone]
        intro heq
        obtain ⟨host, -, heq⟩ := Option.map_eq_some_iff.mp heq
        have hlength := congrArg (·.1.1.length) heq
        simp [ascii] at hlength
      · -- The user info ends at the first "@", and the host has the name.
        have hname : (0x3A : UInt8) ∉ a.host →
            0x3A ∉ text ++ ascii "@" ++ a.host ∧ 0x5B ∉ text ++ ascii "@" ++ a.host := by
          intro hcolon
          have hopen : (0x5B : UInt8) ∉ a.host := notMem_host hreadable (by decide)
          have htextColon : (0x3A : UInt8) ∉ text := htext.notMem (by decide)
          have htextOpen : (0x5B : UInt8) ∉ text := htext.notMem (by decide)
          simp [hcolon, hopen, htextColon, htextOpen, ascii]
        rw [readAuthority_marks hreadable (hmem (.inr rfl)) hname fun h => absurd h huser]
        intro heq
        have hlength := congrArg (·.2.1.length) (Option.some_inj.mp heq)
        simp [ascii] at hlength
        omega
  · obtain ⟨userName, userPassword, huser⟩ : ∃ userName userPassword,
        a.user = some (userName, userPassword) := by
      rcases huser : a.user with _ | ⟨userName, userPassword⟩
      · exact absurd (by rw [UriAuthority.userName, huser]; rfl) hempty
      · exact ⟨userName, userPassword, rfl⟩
    refine iff_of_true ?_ (.inl hempty)
    have hstr : u.uriStr = scheme ++ ascii "://" ++ (a.userName ++
        (a.passwordMark ++ a.userPassword ++ a.userMark ++ Uri.delimited a.host ++ a.portText ++
          path)) := by
      rw [hl.uriStr, UriAuthority.text, UriAuthority.userText_eq]
      simp only [List.append_assoc]
    refine sets_of_user hvalid hu userPassword htext
      (fun _ h => hreadable.userPassword (h ▸ huser)) ?_ ?_
    · rw [UriChange.setter, Uri.edited, if_neg (mt hl.views.userName.size_eq_zero.mp hempty),
        hl.views.userName.replaced hempty hstr]
      cases userPassword <;>
        simp [UriAuthority.text, UriAuthority.userText, UriAuthority.passwordMark,
          UriAuthority.userPassword, UriAuthority.userMark, UriAuthority.portText, huser]
    · simp [UriChange.expected, UriForm.parts, UriAuthority.userName, UriAuthority.userPassword,
        huser]

theorem sets_userPassword_iff {text : List UInt8} (htext : Undelimited text) :
    u.Sets (.userPassword text) ↔
      ∀ userName, a.user = some (userName, some []) → userName = [] := by
  obtain ⟨hscheme, ⟨hreadable, hhost⟩, hpath⟩ := id hvalid
  have hview := hl.views
  cases huser : a.user with
  | none =>
    have hname : a.userName = [] := by rw [UriAuthority.userName, huser]; rfl
    have hpassword : a.userPassword = [] := by rw [UriAuthority.userPassword, huser]; rfl
    refine iff_of_true (Uri.sets_of_throws ?_ fun _ h => by cases h) fun _ h => by cases h
    rw [UriChange.setter, Uri.edited, if_pos (hview.userPassword.size_eq_zero.mpr hpassword),
      if_pos (hview.userName.size_eq_zero.mpr hname)]
  | some user =>
    obtain ⟨userName, userPassword⟩ := user
    have hname : a.userName = userName := by rw [UriAuthority.userName, huser]; rfl
    have hpassword : a.userPassword = userPassword.getD [] := by
      rw [UriAuthority.userPassword, huser]
      rfl
    have hundelimited := hreadable.userName huser
    have hstr : u.uriStr = scheme ++ ascii "://" ++ (userName ++
        (a.passwordMark ++ a.userPassword ++ ascii "@" ++ Uri.delimited a.host ++ a.portText ++
          path)) := by
      have hmark : a.userMark = ascii "@" := by rw [UriAuthority.userMark, huser]; rfl
      rw [hl.uriStr, UriAuthority.text, UriAuthority.userText_eq, hname, hmark]
      simp only [List.append_assoc]
    by_cases hempty : userPassword.getD [] = []
    · have hnone := hview.userPassword.size_eq_zero.mpr (hpassword.trans hempty)
      by_cases hanonymous : userName = []
      · refine iff_of_true (Uri.sets_of_throws ?_ fun _ h => by cases h) ?_
        · rw [UriChange.setter, Uri.edited, if_pos hnone,
            if_pos (hview.userName.size_eq_zero.mpr (hname.trans hanonymous))]
        · intro name heq
          cases heq
          exact hanonymous
      have hviewName := hview.userName
      rw [hname] at hviewName
      have hedited : u.edited (UriChange.setter (.userPassword text)) =
          some (scheme ++ ascii "://" ++ (userName ++ ascii ":" ++ text ++
            (a.passwordMark ++ a.userPassword ++ ascii "@" ++ Uri.delimited a.host ++ a.portText ++
              path))) := by
        rw [UriChange.setter, Uri.edited, if_pos hnone,
          if_neg (mt hviewName.size_eq_zero.mp hanonymous), hviewName.text_eq,
          hviewName.replaced hanonymous hstr]
      cases huserPassword : userPassword with
      | none =>
        subst huserPassword
        refine iff_of_true ?_ (fun name heq => by cases heq)
        refine sets_of_user hvalid hu (some text) hundelimited
          (fun _ h => by cases h; exact htext) ?_ ?_
        · rw [hedited, UriAuthority.passwordMark, UriAuthority.userPassword, huser]
          simp [UriAuthority.text, UriAuthority.userText, UriAuthority.portText]
        · simp [UriChange.expected, UriForm.parts, UriAuthority.userName, UriAuthority.userPassword,
            huser]
      | some old =>
        obtain rfl : old = [] := by rw [huserPassword] at hempty; exact hempty
        subst huserPassword
        -- The colon that was there is read as part of the password.
        refine iff_of_false ?_ fun h => hanonymous (h userName rfl)
        have hname' : (0x40 : UInt8) ∉ userName := hundelimited.notMem (by decide)
        have htext' : (0x40 : UInt8) ∉ text := htext.notMem (by decide)
        have hat : (0x40 : UInt8) ∉ userName ++ 0x3A :: (text ++ ascii ":") := by
          simp [hname', htext', ascii]
        have hcut : cut (ascii ":") (userName ++ 0x3A :: (text ++ ascii ":")) =
            some (userName, text ++ ascii ":") := cut_eq (d := []) (hundelimited.notMem (by decide))
        have hedited' : u.edited (UriChange.setter (.userPassword text)) =
            some (scheme ++ ascii "://" ++ ((userName ++ 0x3A :: (text ++ ascii ":")) ++
              0x40 :: (Uri.delimited a.host ++ a.portText) ++ path)) := by
          rw [hedited, UriAuthority.passwordMark, UriAuthority.userPassword, huser]
          simp [ascii]
        have hslash : (0x2F : UInt8) ∉ (userName ++ 0x3A :: (text ++ ascii ":")) ++
            0x40 :: (Uri.delimited a.host ++ a.portText) := by
          have hname'' : (0x2F : UInt8) ∉ userName := hundelimited.notMem (by decide)
          have htext'' : (0x2F : UInt8) ∉ text := htext.notMem (by decide)
          have hdelimited := notMem_delimited (b := 0x2F) hreadable.host (.inl rfl)
          have hport := notMem_portText (b := 0x2F) hreadable (.inl rfl)
          simp [hname'', htext'', hdelimited, hport, ascii]
        rw [sets_iff_readAuthority hvalid hu hedited' hslash rfl, readAuthority_user hat _, hcut]
        intro heq
        obtain ⟨host, -, heq⟩ := Option.map_eq_some_iff.mp heq
        have hlength := congrArg (·.1.2.length) heq
        simp [ascii] at hlength
    · obtain ⟨old, rfl⟩ : ∃ old, userPassword = some old := by
        cases userPassword with
        | none => exact absurd rfl hempty
        | some old => exact ⟨old, rfl⟩
      rw [Option.getD_some] at hempty hpassword
      have hfilled : u.userPassword.size ≠ 0 := by
        rw [Ne, hview.userPassword.size_eq_zero, hpassword]
        exact hempty
      have hmark : a.passwordMark = ascii ":" := by rw [UriAuthority.passwordMark, huser]
      have hviewPassword := hview.userPassword
      rw [hname, hpassword, hmark] at hviewPassword
      have hstr' : u.uriStr = scheme ++ ascii "://" ++ userName ++
          (0x3A :: old ++ (ascii "@" ++ Uri.delimited a.host ++ a.portText ++ path)) := by
        rw [hstr, hpassword, hmark]
        simp [ascii]
      refine iff_of_true ?_ fun name heq => by cases heq; exact absurd rfl hempty
      by_cases hnone : text = []
      · have hview' : Points u.uriStr (Uri.withSeparator u.userPassword)
            (scheme ++ ascii "://" ++ userName) (0x3A :: old) := by
          refine Points.withSeparator ?_ hempty
          rw [List.append_assoc (scheme ++ ascii "://")]
          exact hviewPassword
        refine sets_of_user hvalid hu none hundelimited (fun _ h => by cases h) ?_ ?_
        · rw [UriChange.setter, Uri.edited, if_neg hfilled, if_pos hnone,
            hview'.replaced (by simp) hstr', hnone]
          simp [UriAuthority.text, UriAuthority.userText, UriAuthority.portText]
        · simp [UriChange.expected, UriForm.parts, UriAuthority.userName, UriAuthority.userPassword,
            huser, hnone]
      · have hstr'' : u.uriStr = scheme ++ ascii "://" ++ (userName ++ ascii ":") ++
            (old ++ (ascii "@" ++ Uri.delimited a.host ++ a.portText ++ path)) := by
          rw [hstr']
          simp [ascii]
        refine sets_of_user hvalid hu (some text) hundelimited
          (fun _ h => by cases h; exact htext) ?_ ?_
        · rw [UriChange.setter, Uri.edited, if_neg hfilled, if_neg hnone]
          refine (hviewPassword.replaced hempty hstr'').trans ?_
          simp [UriAuthority.text, UriAuthority.userText, UriAuthority.portText]
        · simp [UriChange.expected, UriForm.parts, UriAuthority.userName, UriAuthority.userPassword,
            huser]

end Located

/-! ## Setters of a URI without an authority -/

section LocatedPlain

variable {u : Uri} {scheme path : List UInt8}
  (hvalid : (UriForm.plain scheme path).Valid)
  (hu : Uri.ofString (UriForm.plain scheme path).text = .ok u)
  (hl : u.LocatedPlain scheme path)

include hvalid hu hl

omit hvalid hu in
/-- What needs a host or a user name throws. -/
theorem sets_plain_of_throws {change : UriChange} (h : (∃ text, change = .userName text) ∨
    (∃ text, change = .userPassword text) ∨ ∃ text, change = .port text) : u.Sets change := by
  rcases h with ⟨text, rfl⟩ | ⟨text, rfl⟩ | ⟨text, rfl⟩
  · refine Uri.sets_of_throws ?_ fun _ h => by cases h
    rw [UriChange.setter, Uri.edited, hl.userName, if_pos rfl, hl.host, if_pos rfl]
  · refine Uri.sets_of_throws ?_ fun _ h => by cases h
    rw [UriChange.setter, Uri.edited, hl.userPassword, if_pos rfl, hl.userName, if_pos rfl]
  · refine Uri.sets_of_throws ?_ fun _ h => by cases h
    rw [UriChange.setter, Uri.edited, hl.port, if_pos rfl, hl.host, if_pos rfl]

theorem sets_plain_scheme {text : List UInt8} (htext : Undelimited text) :
    u.Sets (.scheme text) := by
  by_cases hempty : text = []
  · exact Uri.sets_of_throws (if_pos hempty) fun _ => nofun
  have hstr : u.uriStr = [] ++ (scheme ++ (ascii ":" ++ path)) := by
    rw [hl.uriStr, List.nil_append, List.append_assoc]
  have hedited : u.edited (UriChange.setter (.scheme text)) = some (text ++ ascii ":" ++ path) := by
    rw [UriChange.setter, Uri.edited, if_neg hempty, hl.scheme.replaced hvalid.1.1 hstr,
      List.nil_append, List.append_assoc]
  rw [Uri.sets_iff_read hu hedited, Uri.parts_eq hvalid hu]
  exact read_text (.plain text path) ⟨⟨hempty, htext⟩, hvalid.2⟩

theorem sets_plain_path_iff {text : List UInt8} (htext : text = [] ∨ text.head? = some 0x2F) :
    u.Sets (.path text) ↔ UriForm.PlainPath text := by
  have hedited : u.edited (UriChange.setter (.path text)) = some (scheme ++ ascii ":" ++ text) := by
    have hguard : ¬(text ≠ [] ∧ text.head? ≠ some 0x2F) := by tauto
    have hstr : u.uriStr = scheme ++ ascii ":" ++ (path ++ []) := by
      rw [hl.uriStr, List.append_nil]
    rw [UriChange.setter, Uri.edited, if_neg hguard]
    by_cases hempty : path = []
    · rw [if_pos (hl.path.size_eq_zero.mpr hempty), hstr, hempty]
      simp
    · rw [if_neg (mt hl.path.size_eq_zero.mp hempty), hl.path.replaced hempty hstr]
      simp
  rw [Uri.sets_iff_read hu hedited, Uri.parts_eq hvalid hu]
  constructor
  · intro hread
    by_contra hnot
    have hcolon : (0x3A : UInt8) ∉ scheme := hvalid.1.2.notMem (by decide)
    obtain ⟨⟨before, rest⟩, hcut⟩ := Option.ne_none_iff_exists'.mp hnot
    obtain ⟨position, hfind, heq⟩ := Option.map_eq_some_iff.mp hcut
    cases heq
    have hposition : findDelimiter (ascii "://") (scheme ++ (ascii ":" ++ text)) =
        some (position + scheme.length) := by
      rw [show ascii "://" = 0x3A :: ascii "//" from rfl, findDelimiter_append hcolon]
      exact congrArg (Option.map (· + scheme.length)) hfind
    have hcut' : cut (ascii "://") (scheme ++ ascii ":" ++ text) =
        some ((scheme ++ (ascii ":" ++ text)).take (position + scheme.length),
          (scheme ++ (ascii ":" ++ text)).drop
            (position + scheme.length + (ascii "://").length)) := by
      rw [List.append_assoc, cut, hposition]
      rfl
    have hne : (scheme ++ (ascii ":" ++ text)).take (position + scheme.length) ≠ [] := by
      intro hnil
      have hpos := List.length_pos_iff.mpr hvalid.1.1
      rcases List.take_eq_nil_iff.mp hnil with hzero | hnil
      · omega
      · exact hvalid.1.1 (List.append_eq_nil_iff.mp hnil).1
    have hshort := (path_read hcut' hne hread).2
    have hpath : (UriChange.expected (UriForm.plain scheme path).parts (.path text)).path = text :=
      rfl
    have hthree : (ascii "://").length = 3 := rfl
    have hone : (ascii ":").length = 1 := rfl
    rw [hpath, List.length_drop, List.length_append, List.length_append, hthree, hone] at hshort
    have hzero : text.length = 0 := by omega
    have hempty : text = [] := List.length_eq_zero_iff.mp hzero
    subst hempty
    have hnone : findDelimiter (ascii "://") (ascii ":" ++ []) = none := by decide
    rw [hnone] at hfind
    cases hfind
  · intro hplain
    exact read_text (.plain scheme text) ⟨hvalid.1, hplain⟩

omit hu in
/-- A path that the URI has is behind the authority, with a colon, and again the path. -/
theorem edited_plain_authority (authority : List UInt8) : u.editedAuthority authority =
    some (scheme ++ ascii "://" ++ (authority ++ (path ++ ascii ":" ++ path))) := by
  have hstr : u.uriStr = [] ++ (scheme ++ (ascii ":" ++ path)) := by
    rw [hl.uriStr, List.nil_append, List.append_assoc]
  rw [Uri.editedAuthority, hl.authority, if_pos rfl, hl.scheme.replaced hvalid.1.1 hstr,
    hl.scheme.text_eq, hl.path.text_eq]
  simp only [List.nil_append, List.append_assoc]

/-- The path is not read if there is one, and the authority is read with a colon. -/
theorem sets_iff_plain {change : UriChange} (str : List UInt8)
    {userName userPassword host port : List UInt8}
    (hedited : u.edited change.setter = u.editedAuthority str) (hslash : 0x2F ∉ str)
    (hexpected : change.expected (UriForm.plain scheme path).parts =
      { scheme, userName, userPassword, host, port, path }) :
    u.Sets change ↔ path = [] ∧
      readAuthority (str ++ ascii ":") = some ((userName, userPassword), host, port) := by
  rw [edited_plain_authority hvalid hl] at hedited
  rw [Uri.sets_iff_read hu hedited, Uri.parts_eq hvalid hu, hexpected]
  by_cases hempty : path = []
  · subst hempty
    have hcolon : (0x2F : UInt8) ∉ str ++ ascii ":" := by
      rw [List.mem_append, not_or]
      exact ⟨hslash, by decide⟩
    have hread : UriParts.read (scheme ++ ascii "://" ++ (str ++ ascii ":" ++ [])) = _ :=
      read_withAuthority hvalid.1 hcolon (.inl rfl)
    rw [List.append_nil] at hread
    rw [List.nil_append, List.append_nil, hread]
    constructor
    · intro hsome
      obtain ⟨⟨⟨name, password⟩, host', port'⟩, hparts, heq⟩ := Option.map_eq_some_iff.mp hsome
      cases heq
      exact ⟨rfl, hparts⟩
    · rintro ⟨-, hparts⟩
      rw [hparts]
      rfl
  · refine iff_of_false (fun hread => ?_) fun h => hempty h.1
    have hcut : cut (ascii "://")
        (scheme ++ ascii "://" ++ (str ++ (path ++ ascii ":" ++ path))) =
        some (scheme, str ++ (path ++ ascii ":" ++ path)) := by
      rw [List.append_assoc]
      exact cut_eq (d := ascii "//") (hvalid.1.2.notMem (by decide))
    have hslashed : path = [] ∨ path.head? = some 0x2F := (path_read hcut hvalid.1.1 hread).1
    have hhead : (path ++ ascii ":" ++ path).head? = some 0x2F := by
      rw [List.append_assoc, List.head?_append_of_ne_nil _ hempty]
      exact hslashed.resolve_left hempty
    rw [read_withAuthority hvalid.1 hslash (.inr hhead)] at hread
    obtain ⟨texts, -, heq⟩ := Option.map_eq_some_iff.mp hread
    have hlength := congrArg (·.path.length) heq
    simp [ascii] at hlength

theorem sets_plain_authority_iff {b : UriAuthority} (hb : b.Readable) :
    u.Sets (.authority b) ↔ path = [] ∧ b.port = none := by
  have hexpected : UriChange.expected (UriForm.plain scheme path).parts (.authority b) =
      { scheme, userName := b.userName, userPassword := b.userPassword, host := b.host
        port := b.port.getD [], path } := rfl
  rw [sets_iff_plain hvalid hu hl b.text rfl (notMem_text hb) hexpected]
  refine and_congr_right fun _ => ?_
  have hrest : (0x40 : UInt8) ∉ Uri.delimited b.host ++ (b.portText ++ ascii ":") := by
    simp only [List.mem_append, not_or]
    exact ⟨notMem_delimited hb.host (.inr rfl), notMem_portText hb (.inr rfl), by decide⟩
  rw [UriAuthority.text, List.append_assoc, List.append_assoc,
    readAuthority_userText hb fun _ => hrest, UriAuthority.portText]
  cases hport : b.port with
  | none =>
    have hread := (readHost_delimited hb.host []).1
    rw [List.nil_append, show Uri.delimited b.host ++ ascii ":" =
      Uri.delimited b.host ++ 0x3A :: [] from rfl, hread]
    simp
  | some port =>
    have hread := (readHost_delimited hb.host (port ++ ascii ":")).1
    have htext : Uri.delimited b.host ++ (ascii ":" ++ port ++ ascii ":") =
        Uri.delimited b.host ++ 0x3A :: (port ++ ascii ":") := rfl
    simp only [htext, hread]
    simp [ascii]

theorem sets_plain_host_iff {text : List UInt8} (htext : Undelimited text ∨ IsIpv6 text) :
    u.Sets (.host text) ↔ path = [] ∧ 0 ∉ text := by
  have hedited : u.edited (UriChange.setter (.host text)) =
      u.editedAuthority ((Uri.delimited text).takeWhile (· ≠ 0)) := by
    rw [UriChange.setter, Uri.edited, hl.authority, if_pos rfl]
  have hkeep {b : UInt8} (hb : b = 0x2F ∨ b = 0x40) :
      b ∉ (Uri.delimited text).takeWhile (· ≠ 0) :=
    fun hmem => notMem_delimited htext hb ((List.takeWhile_sublist _).subset hmem)
  have hat : (0x40 : UInt8) ∉ (Uri.delimited text).takeWhile (· ≠ 0) ++ ascii ":" := by
    rw [List.mem_append, not_or]
    exact ⟨hkeep (.inr rfl), by decide⟩
  rw [sets_iff_plain hvalid hu hl _ hedited (hkeep (.inl rfl)) rfl, readAuthority_anonymous hat]
  refine and_congr_right fun _ => ?_
  by_cases hzero : (0 : UInt8) ∈ text
  · refine iff_of_false ?_ (not_not.mpr hzero)
    have htakeWhile : (0 : UInt8) ∉ text.takeWhile (· ≠ 0) := by
      intro hmem
      have hne := List.mem_takeWhile_imp hmem
      simp at hne
    rcases htext with hname | hipv6
    · -- The host ends at the zero.
      have hsub {b : UInt8} (hb : b ∈ ascii ":/@[]") : b ∉ text.takeWhile (· ≠ 0) :=
        fun hmem => hname.notMem hb ((List.takeWhile_sublist _).subset hmem)
      rw [delimited_of_undelimited hname,
        show text.takeWhile (· ≠ 0) ++ ascii ":" = text.takeWhile (· ≠ 0) ++ 0x3A :: [] from rfl,
        (readHost_name (hsub (by decide)) (hsub (by decide)) []).1]
      intro heq
      have hshort : text.takeWhile (· ≠ 0) = text := congrArg (·.2.1) (Option.some_inj.mp heq)
      rw [hshort] at htakeWhile
      exact htakeWhile hzero
    · -- The bracket is not closed before the zero.
      have hshort : (Uri.delimited text).takeWhile (· ≠ 0) =
          ascii "[" ++ text.takeWhile (· ≠ 0) := by
        have hopen : ∀ b ∈ ascii "[", decide (b ≠ 0) = true := by decide +kernel
        have hne : (text.takeWhile (· ≠ 0)).length ≠ text.length := by
          intro hlength
          have hself := (List.takeWhile_prefix fun b : UInt8 => decide (b ≠ 0)).eq_of_length hlength
          rw [hself] at htakeWhile
          exact htakeWhile hzero
        rw [delimited_of_isIpv6 hipv6, List.append_assoc, List.takeWhile_append_of_pos hopen,
          List.takeWhile_append, if_neg hne]
      have hclose : (0x5D : UInt8) ∉ ascii "[" ++ (text.takeWhile (· ≠ 0) ++ ascii ":") := by
        have htake : (0x5D : UInt8) ∉ text.takeWhile (· ≠ 0) :=
          fun hmem => hipv6.2 _ ((List.takeWhile_sublist _).subset hmem) (by decide)
        simp only [List.mem_append, not_or]
        exact ⟨by decide, htake, by decide⟩
      have hcut : cut (ascii "]") (ascii "[" ++ (text.takeWhile (· ≠ 0) ++ ascii ":")) = none :=
        cut_eq_none hclose
      have hyes : (ascii "[").isPrefixOf
          (ascii "[" ++ (text.takeWhile (· ≠ 0) ++ ascii ":")) = true := by
        rw [List.isPrefixOf_iff_prefix]
        exact List.prefix_append _ _
      rw [hshort, List.append_assoc, readHost, if_pos hyes, hcut]
      intro h
      cases h
  · refine iff_of_true ?_ hzero
    have hall : (Uri.delimited text).takeWhile (· ≠ 0) = Uri.delimited text := by
      have hne : ∀ b ∈ Uri.delimited text, decide (b ≠ 0) = true := by
        intro b hb
        refine decide_eq_true fun hb0 => ?_
        rw [hb0, delimited_eq, openMark, closeMark] at hb
        simp only [List.mem_append] at hb
        rcases hb with hb | hb | hb
        · split_ifs at hb
          · exact absurd hb (by decide)
          · cases hb
        · exact hzero hb
        · split_ifs at hb
          · exact absurd hb (by decide)
          · cases hb
      have hnil : (Uri.delimited text ++ []).takeWhile (· ≠ 0) = _ :=
        List.takeWhile_append_of_pos hne
      rwa [List.append_nil, List.takeWhile_nil, List.append_nil] at hnil
    rw [hall, show Uri.delimited text ++ ascii ":" = Uri.delimited text ++ 0x3A :: [] from rfl,
      (readHost_delimited htext []).1]
    rfl

end LocatedPlain

/-! ## All setters -/

/-- Where a setter is right. A user name is put in front of the host and a port behind it, which are
the wrong places in brackets; empty components are taken for absent ones, whose delimiter then is
there twice; and without an authority the path stays behind the colon. -/
def UriForm.Works : UriForm → UriChange → Prop
  | .withAuthority _ a _, .userName _ => a.userName ≠ [] ∨ a.user = none ∧ 0x3A ∉ a.host
  | .withAuthority _ a _, .userPassword _ =>
    ∀ userName, a.user = some (userName, some []) → userName = []
  | .withAuthority _ a _, .port _ => a.port.getD [] ≠ [] ∨ a.port = none ∧ 0x3A ∉ a.host
  | .plain _ path, .authority b => path = [] ∧ b.port = none
  | .plain _ path, .host host => path = [] ∧ 0 ∉ host
  | .plain _ _, .path path => UriForm.PlainPath path
  | _, _ => True

/-- **A setter changes its part and no other one** exactly if it works. -/
theorem UriForm.sets_iff {form : UriForm} {change : UriChange} (hform : form.Valid)
    (hchange : change.Valid) :
    ∃ u, Uri.ofString form.text = .ok u ∧ (u.Sets change ↔ form.Works change) := by
  cases form with
  | withAuthority scheme a path =>
    obtain ⟨u, hu, hl⟩ := Uri.located_ofString hform
    refine ⟨u, hu, ?_⟩
    cases change with
    | scheme text => exact iff_of_true (sets_scheme hform hu hl hchange) trivial
    | authority b => exact iff_of_true (sets_authority hform hu hl hchange) trivial
    | userName text => exact sets_userName_iff hform hu hl hchange
    | userPassword text => exact sets_userPassword_iff hform hu hl hchange
    | host text => exact iff_of_true (sets_host hform hu hl hchange) trivial
    | port text => exact sets_port_iff hform hu hl hchange
    | path text => exact iff_of_true (sets_path hform hu hl hchange) trivial
  | plain scheme path =>
    obtain ⟨u, hu, hl⟩ := Uri.locatedPlain_ofString hform
    refine ⟨u, hu, ?_⟩
    cases change with
    | scheme text => exact iff_of_true (sets_plain_scheme hform hu hl hchange) trivial
    | authority b => exact sets_plain_authority_iff hform hu hl hchange
    | userName text => exact iff_of_true (sets_plain_of_throws hl (.inl ⟨_, rfl⟩)) trivial
    | userPassword text =>
      exact iff_of_true (sets_plain_of_throws hl (.inr (.inl ⟨_, rfl⟩))) trivial
    | host text => exact sets_plain_host_iff hform hu hl hchange
    | port text => exact iff_of_true (sets_plain_of_throws hl (.inr (.inr ⟨_, rfl⟩))) trivial
    | path text => exact sets_plain_path_iff hform hu hl hchange

/-- `tcp://user@[::1]` -/
def ipv6Form : UriForm :=
  .withAuthority (ascii "tcp")
    { user := some (ascii "user", none), host := ascii "::1", port := none } []

theorem UriForm.valid_ipv6Form : ipv6Form.Valid := by
  have huser : Undelimited (ascii "user") := by unfold Undelimited; decide +kernel
  have hscheme : Undelimited (ascii "tcp") := by unfold Undelimited; decide +kernel
  have hhost : IsIpv6 (ascii "::1") := ⟨by decide +kernel, by decide +kernel⟩
  exact ⟨⟨by decide, hscheme⟩,
    ⟨⟨fun h => by cases h; exact huser, nofun, .inr hhost, nofun⟩, by decide⟩, .inl rfl⟩

/-- The password of it is set. -/
theorem UriForm.sets_iff_password : ∃ u, Uri.ofString ipv6Form.text = .ok u ∧
    u.Sets (.userPassword (ascii "secret")) := by
  have hpassword : UriChange.Valid (.userPassword (ascii "secret")) := by
    show Undelimited (ascii "secret")
    unfold Undelimited
    decide +kernel
  obtain ⟨u, hu, hiff⟩ := UriForm.sets_iff UriForm.valid_ipv6Form hpassword
  exact ⟨u, hu, hiff.mpr fun userName h => by cases h⟩

/-- The port of it is set: it becomes part of the host. -/
theorem UriForm.not_sets_port : ipv6Form.Valid ∧ UriChange.Valid (.port (ascii "12345")) ∧
    ∃ u, Uri.ofString ipv6Form.text = .ok u ∧
      (u.set (.port (ascii "12345"))).1.parts.host = ascii "::1:12345" ∧
      (u.set (.port (ascii "12345"))).1.parts.port = [] ∧ ¬u.Sets (.port (ascii "12345")) := by
  have hport : Undelimited (ascii "12345") := by unfold Undelimited; decide +kernel
  obtain ⟨u, hu, hl⟩ := Uri.located_ofString UriForm.valid_ipv6Form
  have hself : u = (Uri.parse { uriStr := ipv6Form.text }).1 := by
    have hparses : Uri.Parses ipv6Form.text := by decide +kernel
    have hok := Uri.ofString_of_parses hparses
    rw [show Uri.ofString ipv6Form.text = .ok u from hu] at hok
    cases hok
    rfl
  refine ⟨UriForm.valid_ipv6Form, hport, u, hu, ?_, ?_, ?_⟩
  · rw [hself]
    decide +kernel
  · rw [hself]
    decide +kernel
  · rw [sets_port_iff UriForm.valid_ipv6Form hu hl hport]
    decide

end Dots
