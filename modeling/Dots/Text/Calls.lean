import Dots.Text.Progress

/-!
# Reads that end

* `Call`, `Calls`: which functions of a text reader call which others, and where in the input.
* `Raises`: an element of a skipped array at the end of the input or of an object, an element of a
  vector that is an enumerator without a name and takes no symbol, and an identifier with a symbol
  above `0x7F` behind it.
* **`fails_iff`**: a call does not end, or looks outside of a table, exactly if it leads to one that
  does so by itself.
* **`ends_iff`**, **`inside_iff`**: what that means for `skip` and for reading vectors and structs.
-/

set_option autoImplicit false

namespace Dots

open Parse
open TextWriter (State)

mutual

/-- The number of types in a type. -/
def TypeDescriptor.nodes : TypeDescriptor → ℕ
  | .fundamental _ | .enumeration _ _ => 1
  | .vector d => d.nodes + 1
  | .struct ps => ps.nodes + 1

def PropertyDescriptors.nodes : PropertyDescriptors → ℕ
  | .nil => 1
  | .cons _ d ps => d.nodes + ps.nodes + 1

end

theorem TypeDescriptor.nodes_pos (d : TypeDescriptor) : 0 < d.nodes := by
  cases d <;> exact Nat.succ_pos _

theorem PropertyDescriptors.nodes_pos (ps : PropertyDescriptors) : 0 < ps.nodes := by
  cases ps <;> exact Nat.succ_pos _

namespace TextSerializer

open TextReader
open TextFailure (Thrown)

/-- A function of the reader with its arguments. -/
inductive Call
  | identifier
  /-- `skip`, and `trySkip` behind the symbols that it passes. -/
  | skip (nesting : List State)
  | trySkip (nesting : List State)
  /-- `skip` of an element of an array. -/
  | element (nesting : List State)
  | value (level : ℕ) (nesting : List State) (d : TypeDescriptor) (v : Value d)
  | members (level : ℕ) (nesting : List State) (included : PropertySet) (ps : PropertyDescriptors)
    (x : Instance ps)

variable (s : TextSerializer) (resize : Resize)

/-- The property that `find_property` finds, if it is included, with its value. -/
def findProperty (included : PropertySet) (name : List UInt8) :
    (ps : PropertyDescriptors) → Instance ps → Option (Σ d, Option (Value d))
  | .nil, _ => none
  | .cons p d ps, (v, x) =>
    if ascii p.name = name then if p.set ⊆ included then some ⟨d, v⟩ else none
    else findProperty included name ps x

/-- A member of an object begins. -/
def AtMember (level : ℕ) (nesting : List State) (included : PropertySet) (ps : PropertyDescriptors)
    (x : Instance ps) (c : Cursor UInt8) (x' : Instance ps) (d : Cursor UInt8) : Prop :=
  ∃ c₁, (readObjectBegin s (ascii (s.structName ps))).run c = .ok ((), c₁) ∧
    AtRound (tryReadObjectEnd s nesting) (readMember s nesting fun name x =>
      s.readProperty resize (level + 1) (.object :: nesting) (CborSerializer.includedAt level included)
        name ps x) x c₁ x' d

/-- An element of a vector begins. -/
def AtElement {d : TypeDescriptor} (level : ℕ) (nesting : List State) (vs : Value (.vector d))
    (c : Cursor UInt8) (vs' : Value (.vector d)) (c' : Cursor UInt8) : Prop :=
  ∃ c₁, (readArrayBegin s).run c = .ok ((), c₁) ∧
    AtRound (tryReadArrayEnd s nesting)
      (readElement resize (s.readType resize (level + 1) (.array :: nesting) d)) vs c₁ vs' c'

/-- Each call of a function by another one, and where in the input it is made. -/
inductive Calls : Call × Cursor UInt8 → Call × Cursor UInt8 → Prop
  | skip {nesting : List State} {c c₁ d : Cursor UInt8} {k : ℕ}
      (hblank : consumeWhitespace.run c = .ok ((), c₁))
      (hcomes : Comes (TextReader.trySkip s (TextReader.skip s) nesting)
        (fun _ : Unit => inputAdvance 1) k () c₁ () d) :
      Calls (.skip nesting, c) (.trySkip nesting, d)
  | arrayElement {nesting : List State} {c c₁ d : Cursor UInt8}
      (harray : s.format.arrayBegin <+: c.rest) (hbegin : (readArrayBegin s).run c = .ok ((), c₁))
      (hround : AtRound (tryReadArrayEnd s nesting)
        (fun _ => TextReader.skip s (.array :: nesting)) () c₁ () d) :
      Calls (.trySkip nesting, c) (.element nesting, d)
  | element {nesting : List State} {c : Cursor UInt8} :
      Calls (.element nesting, c) (.skip (.array :: nesting), c)
  | objectMemberName {nesting : List State} {c c₁ c₂ d : Cursor UInt8}
      (harray : ¬s.format.arrayBegin <+: c.rest) (hobject : s.format.objectBegin <+: c.rest)
      (hbegin : (consumeTokenAfterWhitespace s.format.objectBegin).run c = .ok ((), c₁))
      (hround : AtRound (tryReadObjectEnd s nesting)
        (fun _ => skipMember s (TextReader.skip s) nesting) () c₁ () c₂)
      (hname : (consumeTokenAfterWhitespace s.format.objectMemberNameBegin).run c₂ = .ok ((), d)) :
      Calls (.trySkip nesting, c) (.identifier, d)
  | objectMember {nesting : List State} {c c₁ c₂ d : Cursor UInt8} {name : List UInt8}
      (harray : ¬s.format.arrayBegin <+: c.rest) (hobject : s.format.objectBegin <+: c.rest)
      (hbegin : (consumeTokenAfterWhitespace s.format.objectBegin).run c = .ok ((), c₁))
      (hround : AtRound (tryReadObjectEnd s nesting)
        (fun _ => skipMember s (TextReader.skip s) nesting) () c₁ () c₂)
      (hname : (readObjectMemberName s (.object :: nesting)).run c₂ = .ok (name, d)) :
      Calls (.trySkip nesting, c) (.skip (.object :: nesting), d)
  | enumerator {level : ℕ} {nesting : List State} {name : String} {es : List EnumeratorDescriptor}
      {v : Value (.enumeration name es)} {c c₁ d : Cursor UInt8}
      (hformat : s.format.enumFormat = .identifier)
      (hblank : consumeWhitespace.run c = .ok ((), c₁))
      (hqualifier : (readQualifier s nesting (ascii name) (ascii "::")).run c₁ = .ok ((), d)) :
      Calls (.value level nesting (.enumeration name es) v, c) (.identifier, d)
  | vectorElement {level : ℕ} {nesting : List State} {d : TypeDescriptor}
      {vs vs' : Value (.vector d)} {c c' : Cursor UInt8}
      (hround : s.AtElement resize level nesting vs c vs' c')
      (hlength : (resize d vs'.1 (vs'.1.length + 1)).length < sizeLimit) :
      Calls (.value level nesting (.vector d) vs, c) (.value (level + 1) (.array :: nesting) d
        ((resize d vs'.1 (vs'.1.length + 1)).getLastD (Value.fresh d)), c')
  | struct {level : ℕ} {nesting : List State} {ps : PropertyDescriptors} {x : Instance ps}
      {c : Cursor UInt8} :
      Calls (.value level nesting (.struct ps) x, c)
        (.members level nesting (x.validProperties ps) ps x, c)
  | memberName {level : ℕ} {nesting : List State} {included : PropertySet}
      {ps : PropertyDescriptors} {x x' : Instance ps} {c c₁ d : Cursor UInt8}
      (hround : s.AtMember resize level nesting included ps x c x' c₁)
      (hname : (consumeTokenAfterWhitespace s.format.objectMemberNameBegin).run c₁ = .ok ((), d)) :
      Calls (.members level nesting included ps x, c) (.identifier, d)
  | unknownMember {level : ℕ} {nesting : List State} {included : PropertySet}
      {ps : PropertyDescriptors} {x x' : Instance ps} {c c₁ d : Cursor UInt8} {name : List UInt8}
      (hround : s.AtMember resize level nesting included ps x c x' c₁)
      (hname : (readObjectMemberName s (.object :: nesting)).run c₁ = .ok (name, d))
      (hfind : findProperty (CborSerializer.includedAt level included) name ps x' = none) :
      Calls (.members level nesting included ps x, c) (.skip (.object :: nesting), d)
  | property {level : ℕ} {nesting : List State} {included : PropertySet}
      {ps : PropertyDescriptors} {x x' : Instance ps} {c c₁ c₂ c₃ : Cursor UInt8}
      {name : List UInt8} {d : TypeDescriptor} {v : Option (Value d)}
      (hround : s.AtMember resize level nesting included ps x c x' c₁)
      (hname : (readObjectMemberName s (.object :: nesting)).run c₁ = .ok (name, c₂))
      (hfind : findProperty (CborSerializer.includedAt level included) name ps x' = some ⟨d, v⟩)
      (hnull : (tryReadNull s (.object :: nesting)).run c₂ = .ok (false, c₃)) :
      Calls (.members level nesting included ps x, c)
        (.value (level + 1) (.object :: nesting) d (v.getD (Value.fresh d)), c₃)

/-- The end of the input, or of an object. -/
def Stuck (rest : List UInt8) : Prop := rest = [] ∨ s.format.objectEnd <+: rest

/-- No symbol of an element is here: of an enumerator there are neither the name of its type, nor an
identifier, nor the separator behind it. -/
def Idle : TypeDescriptor → List UInt8 → Prop
  | .enumeration name _, rest => ¬ascii name <+: rest ∧ ¬s.format.arrayElementSeparator <+: rest ∧
    ∀ b ∈ rest.head?, isIdentifierSymbol b = false
  | _, _ => False

/-- The loop that makes the call, or the call itself, goes on without end: an element of a skipped
array is no element, or an element of a vector, which has room for each, is an enumerator without a
name at a place where it takes no symbol. -/
def Hangs : Call × Cursor UInt8 → Prop
  | (.element _, c) => s.Stuck c.rest
  | (.value level nesting (.vector d) vs, c) => s.Nameless d ∧
    (∃ vs' c', s.AtElement resize level nesting vs c vs' c' ∧ s.Idle d c'.rest) ∧
    ∀ vs' c', s.AtElement resize level nesting vs c vs' c' →
      (resize d vs'.1 (vs'.1.length + 1)).length < sizeLimit
  | _ => False

/-- An identifier has a symbol above `0x7F` behind it. -/
def LooksOutside : Call × Cursor UInt8 → Prop
  | (.identifier, c) => ∃ b t, c.rest.dropWhile isIdentifierSymbol = b :: t ∧ 0x80 ≤ b
  | _ => False

/-- What goes wrong in the call itself. -/
def Raises (e : TextFailure) (x : Call × Cursor UInt8) : Prop :=
  e = .hangs ∧ s.Hangs resize x ∨ ∃ c, x = (.identifier, c) ∧ identifier.run c = .error e

/-- A call ends with an error, or is a round of a loop that goes on without end. -/
def Fails (e : TextFailure) : Call × Cursor UInt8 → Prop
  | (.identifier, c) => identifier.run c = .error e
  | (.skip nesting, c) => (TextReader.skip s nesting).run c = .error e
  | (.trySkip nesting, c) => (TextReader.trySkip s (TextReader.skip s) nesting).run c = .error e
  | (.element nesting, c) =>
    (TextReader.skip s (.array :: nesting)).run c = .error e ∨ e = .hangs ∧ s.Stuck c.rest
  | (.value level nesting d v, c) => (s.readType resize level nesting d v).run c = .error e
  | (.members level nesting included ps x, c) =>
    (s.readStruct resize level nesting included ps x).run c = .error e

variable {s : TextSerializer} {resize : Resize} {nesting : List State} {e : TextFailure}
  {c c₁ d : Cursor UInt8} {k : ℕ} {α β : Type}

/-! ## Errors that are no exceptions -/

section Errors

variable {m : ReadText α} {f : α → ReadText β} {g : List State → ReadText Unit}

/-- What is done first can only throw. -/
theorem error_behind (he : ¬e.Thrown) (hm : Advances Thrown k m) :
    (m >>= f).run c = .error e ↔ ∃ a c', m.run c = .ok (a, c') ∧ (f a).run c' = .error e :=
  error_bind_iff.trans (or_iff_right fun h => he (hm.error h))

/-- What is done last can only throw. -/
theorem error_before (he : ¬e.Thrown) (hf : ∀ a, Advances Thrown 0 (f a)) :
    (m >>= f).run c = .error e ↔ m.run c = .error e := by
  refine error_bind_iff.trans (or_iff_left ?_)
  rintro ⟨a, c', -, h⟩
  exact he ((hf a).error h)

theorem tryReadArrayEnd_ne_error : (tryReadArrayEnd s nesting).run c ≠ .error e :=
  fun h => (advances_tryReadArrayEnd (E := fun _ => False) nesting).error h

theorem tryReadObjectEnd_ne_error : (tryReadObjectEnd s nesting).run c ≠ .error e :=
  fun h => (advances_tryReadObjectEnd (E := fun _ => False) nesting).error h

theorem error_readIdentifierString (he : ¬e.Thrown) :
    (readIdentifierString s nesting).run c = .error e ↔ identifier.run c = .error e :=
  error_before he fun _ => (advances_finalizeRead nesting).bind_left fun _ => .pure _

theorem error_readObjectMemberName (he : ¬e.Thrown) :
    (readObjectMemberName s nesting).run c = .error e ↔
      ∃ d, (consumeTokenAfterWhitespace s.format.objectMemberNameBegin).run c = .ok ((), d) ∧
        identifier.run d = .error e := by
  have htoken : ∀ token, Advances Thrown 0 (consumeTokenAfterWhitespace token) := fun token =>
    (advances_consumeTokenAfterWhitespace token).of_le (Nat.zero_le _)
  have hlast : ∀ name, Advances Thrown 0 (do
      if s.format.objectMemberNameEnd ≠ [] then
        consumeTokenAfterWhitespace s.format.objectMemberNameEnd
      consumeTokenAfterWhitespace s.format.objectMemberValueBegin
      return name : ReadText (List UInt8)) := by
    intro name
    split_ifs
    · exact (htoken _).bind_left fun _ => (htoken _).bind_left fun _ => .pure name
    · exact (htoken _).bind_left fun _ => .pure name
  rw [readObjectMemberName, error_behind he (htoken _)]
  constructor
  · rintro ⟨⟨⟩, d, hbegin, h⟩
    exact ⟨d, hbegin, (error_readIdentifierString he).mp ((error_before he hlast).mp h)⟩
  · rintro ⟨d, hbegin, h⟩
    exact ⟨(), d, hbegin, (error_before he hlast).mpr ((error_readIdentifierString he).mpr h)⟩

/-- **`skip`** fails where it tries to skip a value. -/
theorem error_skip (hs : s.Known) (he : ¬e.Thrown) : (skip s nesting).run c = .error e ↔
    ∃ c₁ k d, consumeWhitespace.run c = .ok ((), c₁) ∧
      Comes (trySkip s (skip s) nesting) (fun _ : Unit => inputAdvance 1) k () c₁ () d ∧
      (trySkip s (skip s) nesting).run d = .error e := by
  rw [skip_eq hs, error_behind he advances_consumeWhitespace]
  have hloop : ∀ c₁ : Cursor UInt8,
      (Parse.loop (trySkip s (skip s) nesting) (fun _ => inputAdvance 1) (fun _ => .hangs) ()).run c₁ =
        .error e ↔ ∃ k ≤ c₁.rest.length, ∃ u d,
          Comes (trySkip s (skip s) nesting) (fun _ : Unit => inputAdvance 1) k () c₁ u d ∧
          RoundFails (trySkip s (skip s) nesting) (fun _ : Unit => inputAdvance 1) u d e :=
    fun c₁ => error_loop_iff (advances_trySkip advances_skip nesting) roundMoves_trySkip
  constructor
  · rintro ⟨⟨⟩, c₁, hblank, h⟩
    obtain ⟨k, -, ⟨⟩, d, hcomes, hfails | ⟨c₂, -, hfails⟩⟩ := (hloop c₁).mp h
    · exact ⟨c₁, k, d, hblank, hcomes, hfails⟩
    · cases hfails
  · rintro ⟨c₁, k, d, hblank, hcomes, hfails⟩
    have hk := hcomes.le_length (advances_trySkip advances_skip nesting) (roundMoves_trySkip (E := Any))
    exact ⟨(), c₁, hblank, (hloop c₁).mpr ⟨k, hk, (), d, hcomes, .inl hfails⟩⟩

theorem run_trySkip_array (hs : s.Known) (h : s.format.arrayBegin <+: c.rest) :
    (trySkip s g nesting).run c = StateT.run (do
      readArrayBegin s
      skipElements s g nesting
      return true) c := by
  obtain ⟨t, ht⟩ := h
  rw [run_trySkip, ← ht]
  rcases hs with hs | hs <;> rw [hs] <;> rfl

/-- In the string format arrays and objects begin in the same way. -/
theorem run_trySkip_object (hs : s.Known) (harray : ¬s.format.arrayBegin <+: c.rest)
    (h : s.format.objectBegin <+: c.rest) : (trySkip s g nesting).run c = StateT.run (do
      consumeTokenAfterWhitespace s.format.objectBegin
      skipMembers s g nesting
      return true) c := by
  obtain ⟨t, ht⟩ := h
  rw [run_trySkip, ← ht]
  rcases hs with hs | hs
  · rw [hs]
    rfl
  · refine absurd ?_ harray
    rw [← ht, hs]
    exact ⟨t, rfl⟩

/-- **`trySkip`** fails in an array or an object. -/
theorem error_trySkip (hs : s.Known) (he : ¬e.Thrown) : (trySkip s g nesting).run c = .error e ↔
    (s.format.arrayBegin <+: c.rest ∧ ∃ c₁, (readArrayBegin s).run c = .ok ((), c₁) ∧
      (skipElements s g nesting).run c₁ = .error e) ∨
    ¬s.format.arrayBegin <+: c.rest ∧ s.format.objectBegin <+: c.rest ∧ ∃ c₁,
      (consumeTokenAfterWhitespace s.format.objectBegin).run c = .ok ((), c₁) ∧
      (skipMembers s g nesting).run c₁ = .error e := by
  have htoken : ∀ token, Advances Thrown 0 (consumeToken token) :=
    fun token => (advances_consumeToken token).of_le (Nat.zero_le _)
  have hthen : ∀ {α β : Type} {m : ReadText α} {m' : ReadText β} {k : ℕ}, Advances Thrown k m →
      ((do let _ ← m; let _ ← m'; return true : ReadText Bool).run c = .error e ↔
        ∃ a c₁, m.run c = .ok (a, c₁) ∧ m'.run c₁ = .error e) := by
    intro α β m m' k hm
    rw [error_behind he hm]
    simp only [error_before he fun _ => Advances.pure (E := Thrown) true]
  constructor
  · intro h
    rw [run_trySkip] at h
    split_ifs at h with h₁ h₂ h₃ h₄ h₅ h₆
    · cases h
    · exact absurd ((error_before he fun _ => .pure true).mp h)
        fun h => he ((advances_readEscapedString nesting).error h)
    · obtain ⟨⟨⟩, c₁, hbegin, h⟩ := (hthen advances_readArrayBegin).mp h
      exact .inl ⟨List.isPrefixOf_iff_prefix.mp h₃, c₁, hbegin, h⟩
    · obtain ⟨⟨⟩, c₁, hbegin, h⟩ := (hthen (advances_consumeTokenAfterWhitespace _)).mp h
      exact .inr ⟨mt List.isPrefixOf_iff_prefix.mpr h₃, List.isPrefixOf_iff_prefix.mp h₄, c₁, hbegin, h⟩
    · exact absurd ((error_before he fun _ => .pure true).mp h) fun h => he ((htoken _).error h)
    · exact absurd ((error_before he fun _ => .pure true).mp h) fun h => he ((htoken _).error h)
    · cases h
  · rintro (⟨harray, c₁, hbegin, h⟩ | ⟨harray, hobject, c₁, hbegin, h⟩)
    · rw [run_trySkip_array hs harray]
      exact (hthen advances_readArrayBegin).mpr ⟨(), c₁, hbegin, h⟩
    · rw [run_trySkip_object hs harray hobject]
      exact (hthen (advances_consumeTokenAfterWhitespace _)).mpr ⟨(), c₁, hbegin, h⟩

/-- **Where no array ends**, none ends if it is tried again. -/
theorem tryReadArrayEnd_again (h : (tryReadArrayEnd s nesting).run c = .ok (false, d)) :
    NonBlank d.rest ∧ ¬s.format.arrayEnd <+: d.rest ∧
      (tryReadArrayEnd s nesting).run d = .ok (false, d) := by
  obtain ⟨found, c₁, hfound, hrest⟩ := ok_bind_iff.mp h
  obtain ⟨⟨⟩, c₂, hspace, htoken⟩ := ok_bind_iff.mp hfound
  have hblank := nonBlank_of_consumeWhitespace hspace
  rw [run_tryConsumeToken] at htoken
  split_ifs at htoken with hprefix
  · cases htoken
    obtain ⟨⟨⟩, c₃, -, hreturn⟩ := ok_bind_iff.mp hrest
    cases hreturn
  · cases htoken
    cases hrest
    refine ⟨hblank, hprefix, ok_bind_iff.mpr ⟨false, d, ok_bind_iff.mpr ⟨(), d, ?_, ?_⟩, rfl⟩⟩
    · exact run_consumeWhitespace_of_nonBlank hblank
    · rw [run_tryConsumeToken, if_neg hprefix]

/-- **The elements of an array** that is skipped: one of them fails, or no element can be passed. -/
theorem error_skipElements (hs : s.Known) : (skipElements s (skip s) nesting).run c = .error e ↔
    ∃ d, AtRound (tryReadArrayEnd s nesting) (fun _ => skip s (.array :: nesting)) () c () d ∧
      ((skip s (.array :: nesting)).run d = .error e ∨ e = .hangs ∧ s.Stuck d.rest) := by
  have hround : RoundMoves Any 0 (tryReadArrayEnd s nesting)
      (fun _ : Unit => skip s (.array :: nesting)) := fun _ _ c₁ _ => advances_skip _ c₁
  refine (error_loop_iff_of_stop fun _ => tryReadArrayEnd_ne_error).trans ⟨?_, ?_⟩
  · rintro (⟨⟨⟩, d, hat, hfails⟩ | ⟨rfl, ⟨⟩, d, hcomes⟩)
    · exact ⟨d, hat, .inl hfails⟩
    · obtain ⟨⟨⟩, d₁, ⟨⟩, d₂, hat, hskip, hlength⟩ := hcomes.exists_stay
        (advances_tryReadArrayEnd nesting) hround (Nat.lt_succ_self _)
      have hend : AtEnd s d₁.rest := atEnd_of_skip hs (List.cons_ne_nil _ _) hskip hlength
      obtain ⟨k, -, d', -, hstop⟩ := id hat
      refine ⟨d₁, hat, .inr ⟨rfl, hend.imp_right fun h => ?_⟩⟩
      exact h.resolve_left (tryReadArrayEnd_again hstop).2.1
  · rintro ⟨d, hat, hfails | ⟨rfl, hstuck⟩⟩
    · exact .inl ⟨(), d, hat, hfails⟩
    · obtain ⟨k, -, d', -, hstop⟩ := id hat
      have hskip := skip_of_atEnd hs (.array :: nesting) (hstuck.imp_right .inr)
      exact .inr ⟨rfl, hat.comes_of_stays (tryReadArrayEnd_again hstop).2.2 fun _ _ => ⟨(), hskip⟩⟩

/-- Each member of an object takes a symbol. -/
theorem roundMoves_skipMember (hs : s.Known) : RoundMoves Any 1 (tryReadObjectEnd s nesting)
    (fun _ : Unit => skipMember s (skip s) nesting) := fun _ _ c₁ _ =>
  (advances_skipMember advances_skip nesting).of_le (length_token hs _ (by simp)).ge c₁

theorem error_skipMembers (hs : s.Known) : (skipMembers s (skip s) nesting).run c = .error e ↔
    ∃ d, AtRound (tryReadObjectEnd s nesting) (fun _ => skipMember s (skip s) nesting) () c () d ∧
      (skipMember s (skip s) nesting).run d = .error e := by
  refine (error_loop_iff_of_stop fun _ => tryReadObjectEnd_ne_error).trans ⟨?_, ?_⟩
  · rintro (⟨⟨⟩, d, hat, hfails⟩ | ⟨-, ⟨⟩, d, hcomes⟩)
    · exact ⟨d, hat, hfails⟩
    · have hle := hcomes.le_length (advances_tryReadObjectEnd nesting) (roundMoves_skipMember hs)
      omega
  · rintro ⟨d, hat, hfails⟩
    exact .inl ⟨(), d, hat, hfails⟩

theorem error_skipMember (he : ¬e.Thrown) : (skipMember s g nesting).run c = .error e ↔
    (∃ d, (consumeTokenAfterWhitespace s.format.objectMemberNameBegin).run c = .ok ((), d) ∧
      identifier.run d = .error e) ∨
    ∃ name d, (readObjectMemberName s (.object :: nesting)).run c = .ok (name, d) ∧
      (g (.object :: nesting)).run d = .error e :=
  error_bind_iff.trans (or_congr_left (error_readObjectMemberName he))

end Errors

/-! ## Properties -/

section Properties

variable {level : ℕ} {included : PropertySet} {name : List UInt8} {d' : TypeDescriptor}

theorem error_readValue {read : Value d' → ReadText (Value d')} {v : Option (Value d')} :
    (readValue s nesting v read).run c = .error e ↔
      ∃ c₁, (tryReadNull s nesting).run c = .ok (false, c₁) ∧
        (read (v.getD (Value.fresh d'))).run c₁ = .error e := by
  refine error_bind_iff.trans ⟨?_, ?_⟩
  · rintro (h | ⟨isNull, c₁, hnull, h⟩)
    · exact absurd ((advances_tryReadNull (E := fun _ => False) nesting).error h) id
    · cases isNull with
      | true => cases h
      | false =>
        refine ⟨c₁, hnull, (error_bind_iff.mp h).resolve_right ?_⟩
        rintro ⟨_, _, -, h⟩
        cases h
  · rintro ⟨c₁, hnull, h⟩
    exact .inr ⟨false, c₁, hnull, error_bind_iff.mpr (.inl h)⟩

/-- **The property with a name** is read as its value is. -/
theorem readProperty_spec (s : TextSerializer) (resize : Resize) (level : ℕ) (nesting : List State)
    (included : PropertySet) (name : List UInt8) (e : TextFailure) :
    ∀ (ps : PropertyDescriptors) (x : Instance ps),
    match findProperty included name ps x with
    | none => s.readProperty resize level nesting included name ps x = none
    | some ⟨d, v⟩ => ∃ read, s.readProperty resize level nesting included name ps x = some read ∧
      ∀ c, read.run c = .error e ↔
        (readValue s nesting v (s.readType resize level nesting d)).run c = .error e
  | .cons p d ps, (v, x) => by
    rw [findProperty, readProperty]
    split_ifs with hname hincluded
    · refine ⟨_, rfl, fun c => error_bind_iff.trans (or_iff_left ?_)⟩
      rintro ⟨_, _, -, h⟩
      cases h
    · rfl
    · have ih := readProperty_spec s resize level nesting included name e ps x
      cases hfind : findProperty included name ps x with
      | none =>
        rw [hfind] at ih
        simp only at ih
        rw [ih]
        rfl
      | some found =>
        obtain ⟨d', v'⟩ := found
        rw [hfind] at ih
        obtain ⟨read, hread, herror⟩ := ih
        refine ⟨_, by rw [hread]; rfl, fun c => Iff.trans (error_bind_iff.trans (or_iff_left ?_)) (herror c)⟩
        rintro ⟨_, _, -, h⟩
        cases h
  | .nil, _ => by rw [findProperty, readProperty]

/-- **The members of an object**: one of them fails. -/
theorem error_readStruct (hs : s.Known) (he : ¬e.Thrown) {ps : PropertyDescriptors} {x : Instance ps}
    (hps : s.converters.Bounded ∨ s.NoFloats ps) :
    (s.readStruct resize level nesting included ps x).run c = .error e ↔
      ∃ x' d, s.AtMember resize level nesting included ps x c x' d ∧
        (readMember s nesting (fun name x => s.readProperty resize (level + 1) (.object :: nesting)
          (CborSerializer.includedAt level included) name ps x) x').run d = .error e := by
  rw [readStruct, readMembers, error_behind he (advances_readObjectBegin _)]
  have hround : RoundMoves Any 1 (tryReadObjectEnd s nesting) (readMember s nesting fun name x =>
      s.readProperty resize (level + 1) (.object :: nesting)
        (CborSerializer.includedAt level included) name ps x) := fun x _ c₁ _ =>
    (advances_readMember (fun name x read hread =>
      advances_readProperty hs resize ps _ _ _ name hps x read hread) x).of_le
        (length_token hs _ (by simp)).ge c₁
  constructor
  · rintro ⟨⟨⟩, c₁, hbegin, h⟩
    rcases (error_loop_iff_of_stop fun _ => tryReadObjectEnd_ne_error).mp h with
      ⟨x', d, hat, hfails⟩ | ⟨-, x', d, hcomes⟩
    · exact ⟨x', d, ⟨c₁, hbegin, hat⟩, hfails⟩
    · have hle := hcomes.le_length (advances_tryReadObjectEnd nesting) hround
      omega
  · rintro ⟨x', d, ⟨c₁, hbegin, hat⟩, hfails⟩
    exact ⟨(), c₁, hbegin, (error_loop_iff_of_stop fun _ => tryReadObjectEnd_ne_error).mpr
      (.inl ⟨x', d, hat, hfails⟩)⟩

/-- **A member**: its name, a member that is skipped, or the value of a property. -/
theorem error_readMember (he : ¬e.Thrown) {ps : PropertyDescriptors} {x : Instance ps} :
    (readMember s nesting (fun name x => s.readProperty resize level (.object :: nesting) included
        name ps x) x).run c = .error e ↔
      (∃ d, (consumeTokenAfterWhitespace s.format.objectMemberNameBegin).run c = .ok ((), d) ∧
        identifier.run d = .error e) ∨
      ∃ name d, (readObjectMemberName s (.object :: nesting)).run c = .ok (name, d) ∧
        (findProperty included name ps x = none ∧
            (skip s (.object :: nesting)).run d = .error e ∨
          ∃ d' v, findProperty included name ps x = some ⟨d', v⟩ ∧
            (readValue s (.object :: nesting) v
              (s.readType resize level (.object :: nesting) d')).run d = .error e) := by
  refine error_bind_iff.trans (or_congr (error_readObjectMemberName he) ?_)
  refine exists_congr fun name => exists_congr fun d => and_congr_right fun _ => ?_
  have hspec := readProperty_spec s resize level (.object :: nesting) included name e ps x
  cases hfind : findProperty included name ps x with
  | none =>
    rw [hfind] at hspec
    simp only at hspec
    simp only [hspec]
    constructor
    · intro h
      refine .inl ⟨trivial, (error_bind_iff.mp h).resolve_right ?_⟩
      rintro ⟨_, _, -, h⟩
      cases h
    · rintro (⟨-, h⟩ | ⟨d', v, h, -⟩)
      · exact error_bind_iff.mpr (.inl h)
      · cases h
  | some found =>
    obtain ⟨d', v⟩ := found
    rw [hfind] at hspec
    obtain ⟨read, hread, herror⟩ := hspec
    simp only [hread, herror]
    constructor
    · exact fun h => .inr ⟨d', v, rfl, h⟩
    · rintro (⟨h, -⟩ | ⟨_, _, h, hvalue⟩)
      · cases h
      · cases h
        exact hvalue

theorem error_readElement (he : ¬e.Thrown) {read : Value d' → ReadText (Value d')}
    {vs : {vs : List (Value d') // vs.length < sizeLimit}} : (readElement resize read vs).run c = .error e ↔
      (resize d' vs.1 (vs.1.length + 1)).length < sizeLimit ∧
        (read ((resize d' vs.1 (vs.1.length + 1)).getLastD (Value.fresh d'))).run c = .error e := by
  rw [readElement]
  by_cases h : (resize d' vs.1 (vs.1.length + 1)).length < sizeLimit
  · simp only [h, true_and]
    refine error_bind_iff.trans (or_iff_left ?_)
    rintro ⟨_, _, -, h⟩
    cases h
  · simp only [h, false_and, iff_false]
    intro hrun
    cases hrun
    exact he trivial

theorem run_readElement {read : Value d' → ReadText (Value d')} {v : Value d'}
    {vs : {vs : List (Value d') // vs.length < sizeLimit}}
    (h : (resize d' vs.1 (vs.1.length + 1)).length < sizeLimit)
    (hread : (read ((resize d' vs.1 (vs.1.length + 1)).getLastD (Value.fresh d'))).run c = .ok (v, d)) :
    (readElement resize read vs).run c =
      .ok (⟨(resize d' vs.1 (vs.1.length + 1)).set ((resize d' vs.1 (vs.1.length + 1)).length - 1) v,
        by rw [List.length_set]; exact h⟩, d) := by
  rw [readElement]
  simp only [dif_pos h]
  exact ok_bind_iff.mpr ⟨v, d, hread, rfl⟩

theorem ok_readElement {read : Value d' → ReadText (Value d')}
    {vs vs' : {vs : List (Value d') // vs.length < sizeLimit}}
    (hrun : (readElement resize read vs).run c = .ok (vs', d)) :
    (resize d' vs.1 (vs.1.length + 1)).length < sizeLimit ∧ ∃ v,
      (read ((resize d' vs.1 (vs.1.length + 1)).getLastD (Value.fresh d'))).run c = .ok (v, d) := by
  rw [readElement] at hrun
  by_cases h : (resize d' vs.1 (vs.1.length + 1)).length < sizeLimit
  · simp only [dif_pos h] at hrun
    obtain ⟨v, c₁, hread, hreturn⟩ := ok_bind_iff.mp hrun
    cases hreturn
    exact ⟨h, v, hread⟩
  · simp only [dif_neg h] at hrun
    cases hrun

/-- **The elements of a vector**: one of them fails, or the loop over them does not end. -/
theorem error_readVector (he : ¬e.Thrown) {vs : Value (.vector d')} :
    (s.readType resize level nesting (.vector d') vs).run c = .error e ↔
      (∃ vs' d, s.AtElement resize level nesting vs c vs' d ∧
        (readElement resize (s.readType resize (level + 1) (.array :: nesting) d') vs').run d =
          .error e) ∨
      e = .hangs ∧ ∃ c₁ vs' d, (readArrayBegin s).run c = .ok ((), c₁) ∧
        Comes (tryReadArrayEnd s nesting)
          (readElement resize (s.readType resize (level + 1) (.array :: nesting) d'))
          (c₁.rest.length + 1) vs c₁ vs' d := by
  rw [readType, error_behind he advances_readArrayBegin]
  constructor
  · rintro ⟨⟨⟩, c₁, hbegin, h⟩
    rcases (error_loop_iff_of_stop fun _ => tryReadArrayEnd_ne_error).mp h with
      ⟨vs', d, hat, hfails⟩ | ⟨rfl, vs', d, hcomes⟩
    · exact .inl ⟨vs', d, ⟨c₁, hbegin, hat⟩, hfails⟩
    · exact .inr ⟨rfl, c₁, vs', d, hbegin, hcomes⟩
  · rintro (⟨vs', d, ⟨c₁, hbegin, hat⟩, hfails⟩ | ⟨rfl, c₁, vs', d, hbegin, hcomes⟩)
    · exact ⟨(), c₁, hbegin, (error_loop_iff_of_stop fun _ => tryReadArrayEnd_ne_error).mpr
        (.inl ⟨vs', d, hat, hfails⟩)⟩
    · exact ⟨(), c₁, hbegin, (error_loop_iff_of_stop fun _ => tryReadArrayEnd_ne_error).mpr
        (.inr ⟨rfl, vs', d, hcomes⟩)⟩

/-- **An enumerator without a name** is found where there is nothing of an enumerator. -/
theorem readEnum_of_idle {name : String} {es : List EnumeratorDescriptor}
    (hname : s.Nameless (.enumeration name es)) (hidle : s.Idle (.enumeration name es) c.rest)
    (hblank : NonBlank c.rest) : ∃ v, (s.readEnum (.array :: nesting) name es).run c = .ok (v, c) := by
  obtain ⟨hformat, hpolicy, e, he, hempty⟩ := hname
  obtain ⟨hhead, hseparator, hsymbol⟩ := hidle
  have hspace := run_consumeWhitespace_of_nonBlank hblank
  have hqualifier : (readQualifier s (.array :: nesting) (ascii name) (ascii "::")).run c =
      .ok ((), c) := by
    rw [readQualifier, if_neg (fun h => by cases hpolicy.symm.trans h.2), ok_bind_iff]
    exact ⟨false, c, by rw [run_tryConsumeToken, if_neg hhead], rfl⟩
  have hidentifier : identifier.run c = .ok ([], c) := by
    rw [run_identifier]
    cases hrest : c.rest with
    | nil => exact congrArg (fun d => Except.ok ([], d)) Cursor.advance_zero
    | cons b t =>
      have hb : isIdentifierSymbol b = false := hsymbol b (by rw [hrest]; rfl)
      have hlow : ¬0x80 ≤ b := by
        have hspace := hblank b (by rw [hrest]; rfl)
        rw [isWhitespace, decide_eq_false_iff_not, not_or] at hspace
        exact hspace.2
      simp only [List.dropWhile_cons, List.takeWhile_cons, hb, Bool.false_eq_true, if_false, hlow,
        List.length_nil, Cursor.advance_zero]
  have hfinal : (finalizeRead s (.array :: nesting)).run c = .ok ((), c) := by
    rw [finalizeRead, ok_bind_iff]
    refine ⟨false, c, ok_bind_iff.mpr ⟨(), c, hspace, ?_⟩, rfl⟩
    rw [run_tryConsumeToken, if_neg hseparator]
  have htext : (readQualifiedIdentifierString s (.array :: nesting) (ascii name) (ascii "::")).run c =
      .ok ([], c) := by
    rw [readQualifiedIdentifierString_eq]
    exact ok_bind_iff.mpr ⟨(), c, hspace, ok_bind_iff.mpr ⟨(), c, hqualifier,
      ok_bind_iff.mpr ⟨[], c, hidentifier, ok_bind_iff.mpr ⟨(), c, hfinal, rfl⟩⟩⟩⟩
  obtain ⟨found, hfound⟩ : ∃ found, enumeratorFromName name es [] = .ok found := by
    have hsome : (es.find? fun e => ascii e.name = []).isSome :=
      List.find?_isSome.mpr ⟨e, he, by rw [hempty]; rfl⟩
    obtain ⟨found, hfind⟩ := Option.isSome_iff_exists.mp hsome
    exact ⟨found, by rw [enumeratorFromName, hfind]⟩
  refine ⟨found.value, ?_⟩
  rw [readEnum, hformat, ok_bind_iff]
  exact ⟨.ok found, c, ok_bind_iff.mpr ⟨[], c, htext, by rw [hfound]; rfl⟩, rfl⟩

/-- An enumerator that took no symbol. -/
theorem idle_of_readEnum (hs : s.Known) {name : String} {es : List EnumeratorDescriptor}
    {v : BitVec 32} (hname : s.Nameless (.enumeration name es))
    (hrun : (s.readEnum (.array :: nesting) name es).run c = .ok (v, d))
    (hlength : c.rest.length ≤ d.rest.length) : s.Idle (.enumeration name es) c.rest := by
  obtain ⟨hformat, hpolicy, -⟩ := hname
  rw [readEnum, hformat, readQualifiedIdentifierString_eq] at hrun
  obtain ⟨e, c₁, he, hvalue⟩ := ok_bind_iff.mp hrun
  obtain ⟨text, c₂, htext, hreturn⟩ := ok_bind_iff.mp he
  cases hreturn
  obtain ⟨⟨⟩, c₃, hspace, hqualified⟩ := ok_bind_iff.mp htext
  obtain ⟨⟨⟩, c₄, hqualifier, hread⟩ := ok_bind_iff.mp hqualified
  have h₁ := (advances_enumerator _).length_le hvalue
  have h₂ := (advances_consumeWhitespace (E := Any)).length_le hspace
  have h₃ := (advances_readQualifier _ _ _).length_le hqualifier
  have h₄ := length_identifier hread
  -- All of them stand where the enumerator begins, since none of them took a symbol.
  obtain rfl := (advances_consumeWhitespace (E := Any)).eq_of_length_le hspace (by omega)
  obtain rfl := (advances_readQualifier _ _ _).eq_of_length_le hqualifier (by omega)
  obtain ⟨text, c₅, hidentifier, hrest⟩ := ok_bind_iff.mp hread
  obtain ⟨⟨⟩, c₆, hfinal, hreturn⟩ := ok_bind_iff.mp hrest
  cases hreturn
  have hempty : text = [] := List.length_eq_zero_iff.mp (by omega)
  subst hempty
  obtain ⟨hsymbols, rfl⟩ := ok_identifier hidentifier
  rw [List.length_nil, Cursor.advance_zero] at hfinal
  refine ⟨fun hhead => ?_, fun hseparator => ?_, fun b hb => ?_⟩
  · rw [readQualifier, if_neg (fun h => by cases hpolicy.symm.trans h.2)] at hqualifier
    obtain ⟨found, c₇, hfound, htail⟩ := ok_bind_iff.mp hqualifier
    rw [run_tryConsumeToken, if_pos hhead] at hfound
    cases hfound
    have hle := (advances_consumeToken (ascii "::")).length_le htail
    have htwo : (ascii "::").length = 2 := rfl
    rw [Cursor.rest_advance, List.length_drop] at hle
    omega
  · obtain ⟨found, c₇, hfound, hreturn⟩ := ok_bind_iff.mp hfinal
    obtain ⟨⟨⟩, c₈, hspace', htoken⟩ := ok_bind_iff.mp hfound
    cases hspace.symm.trans hspace'
    rw [run_tryConsumeToken, if_pos hseparator] at htoken
    cases htoken
    cases hreturn
    have hone := length_token hs s.format.arrayElementSeparator (by simp)
    have hle := hseparator.length_le
    rw [Cursor.rest_advance, List.length_drop] at h₁
    omega
  · obtain ⟨t, hrest⟩ := List.head?_eq_some_iff.mp hb
    rw [hrest, List.takeWhile_cons] at hsymbols
    split_ifs at hsymbols with hsymbol
    exact Bool.eq_false_of_not_eq_true hsymbol

/-- The loop over the elements ends, if each takes a symbol. -/
theorem nameless_of_comes (hs : s.Known) (hd : s.converters.Bounded ∨ s.NoFloat d')
    {vs vs' : Value (.vector d')}
    (hcomes : Comes (tryReadArrayEnd s nesting)
      (readElement resize (s.readType resize (level + 1) (.array :: nesting) d'))
      (c.rest.length + 1) vs c vs' d) : s.Nameless d' := by
  by_contra hnamed
  have hround : RoundMoves Any 1 (tryReadArrayEnd s nesting)
      (readElement resize (s.readType resize (level + 1) (.array :: nesting) d')) := fun vs _ c₁ _ =>
    advances_readElement trivial (advances_readType hs resize d' _ _ 1 hd
      (.inr ⟨rfl, List.cons_ne_nil _ _, hnamed⟩)) vs c₁
  have hle := hcomes.le_length (advances_tryReadArrayEnd nesting) hround
  omega

/-- **More elements than symbols**: they are enumerators without a name, and one of them takes no
symbol. -/
theorem hangs_of_comes (hs : s.Known) (hd : s.converters.Bounded ∨ s.NoFloat d')
    {vs vs' : Value (.vector d')} (hbegin : (readArrayBegin s).run c = .ok ((), c₁))
    (hcomes : Comes (tryReadArrayEnd s nesting)
      (readElement resize (s.readType resize (level + 1) (.array :: nesting) d'))
      (c₁.rest.length + 1) vs c₁ vs' d) :
    s.Hangs resize (.value level nesting (.vector d') vs, c) := by
  have hname := nameless_of_comes hs hd hcomes
  have hround : RoundMoves Any 0 (tryReadArrayEnd s nesting)
      (readElement resize (s.readType resize (level + 1) (.array :: nesting) d')) := fun vs _ c₁ _ =>
    advances_readElement trivial (advances_readType hs resize d' _ _ 0 hd (.inl rfl)) vs c₁
  refine ⟨hname, ?_, ?_⟩
  · obtain ⟨vs₁, d₁, vs₂, d₂, hat, hbody, hlength⟩ := hcomes.exists_stay
      (advances_tryReadArrayEnd nesting) hround (Nat.lt_succ_self _)
    refine ⟨vs₁, d₁, ⟨c₁, hbegin, hat⟩, ?_⟩
    obtain ⟨-, v, hread⟩ := ok_readElement hbody
    cases d' with
    | enumeration name es =>
      rw [readType] at hread
      exact idle_of_readEnum hs hname hread hlength
    | _ => exact hname.elim
  · rintro vs₁ d₁ ⟨c₂, hbegin₂, k, hk, d₂, hcomes₂, hstop⟩
    cases hbegin.symm.trans hbegin₂
    obtain ⟨⟨vs₂, d₃⟩, hbody⟩ := hcomes₂.ok_of_lt hstop hcomes (Nat.lt_succ_of_le hk)
    exact (ok_readElement hbody).1

/-- **An element that takes no symbol** is read again and again, as long as there is room. -/
theorem comes_of_hangs {vs : Value (.vector d')}
    (h : s.Hangs resize (.value level nesting (.vector d') vs, c)) :
    ∃ c₁ vs' d, (readArrayBegin s).run c = .ok ((), c₁) ∧
      Comes (tryReadArrayEnd s nesting)
        (readElement resize (s.readType resize (level + 1) (.array :: nesting) d'))
        (c₁.rest.length + 1) vs c₁ vs' d := by
  obtain ⟨hname, ⟨vs₁, d₁, ⟨c₁, hbegin, hat⟩, hidle⟩, hroom⟩ := h
  obtain ⟨k, -, d₂, -, hstop⟩ := id hat
  obtain ⟨hblank, -, hagain⟩ := tryReadArrayEnd_again hstop
  obtain ⟨vs', d, hcomes⟩ := hat.comes_of_stays hagain fun vs₂ hat₂ => by
    cases d' with
    | enumeration name es =>
      obtain ⟨v, hread⟩ : ∃ v, (s.readEnum (.array :: nesting) name es).run d₁ = .ok (v, d₁) :=
        readEnum_of_idle hname hidle hblank
      exact ⟨_, run_readElement (hroom vs₂ d₁ ⟨c₁, hbegin, hat₂⟩) (by rw [readType]; exact hread)⟩
    | _ => exact hname.elim
  exact ⟨c₁, vs', d, hbegin, hcomes⟩

theorem error_readEnum (he : ¬e.Thrown) {name : String} {es : List EnumeratorDescriptor} :
    (s.readEnum nesting name es).run c = .error e ↔ s.format.enumFormat = .identifier ∧
      ∃ c₁ d, consumeWhitespace.run c = .ok ((), c₁) ∧
        (readQualifier s nesting (ascii name) (ascii "::")).run c₁ = .ok ((), d) ∧
        identifier.run d = .error e := by
  rw [readEnum]
  refine (error_before he fun e => advances_enumerator e).trans ?_
  cases hformat : s.format.enumFormat with
  | tag =>
    refine iff_of_false (fun h => ?_) (fun h => by cases h.1)
    exact he (((advances_readUnsigned 32 nesting).bind_left fun _ => .pure _).error h)
  | identifier =>
    rw [readQualifiedIdentifierString_eq, error_before he fun _ => .pure _,
      error_behind he advances_consumeWhitespace]
    simp only [true_and]
    constructor
    · rintro ⟨⟨⟩, c₁, hblank, h⟩
      obtain ⟨⟨⟩, d, hqualifier, h⟩ := (error_behind he (advances_readQualifier nesting _ _)).mp h
      exact ⟨c₁, d, hblank, hqualifier, (error_readIdentifierString he).mp h⟩
    · rintro ⟨c₁, d, hblank, hqualifier, h⟩
      exact ⟨(), c₁, hblank, (error_behind he (advances_readQualifier nesting _ _)).mpr
        ⟨(), d, hqualifier, (error_readIdentifierString he).mpr h⟩⟩

end Properties

/-! ## What fails calls what raises -/

section Fails

variable {x y : Call × Cursor UInt8}

/-- The values that are read have no floating-point part, or its conversion is bounded. -/
def Readable (s : TextSerializer) : Call × Cursor UInt8 → Prop
  | (.value _ _ d _, _) => s.converters.Bounded ∨ s.NoFloat d
  | (.members _ _ _ ps _, _) => s.converters.Bounded ∨ s.NoFloats ps
  | _ => True

theorem noFloat_of_findProperty {included : PropertySet} {name : List UInt8} {d' : TypeDescriptor}
    {v : Option (Value d')} : ∀ (ps : PropertyDescriptors) (x : Instance ps),
    findProperty included name ps x = some ⟨d', v⟩ → s.NoFloats ps → s.NoFloat d'
  | .nil, _, h, _ => by
    rw [findProperty] at h
    cases h
  | .cons p d ps, (v, x), h, hps => by
    rw [findProperty] at h
    split_ifs at h
    · cases h
      exact hps.1
    · exact noFloat_of_findProperty ps x h hps.2

theorem readable_of_calls (h : s.Calls resize x y) (hx : s.Readable x) : s.Readable y := by
  cases h with
  | vectorElement hround hlength => exact hx
  | struct => exact hx
  | property hround hname hfind hnull => exact hx.imp_right (noFloat_of_findProperty _ _ hfind)
  | _ => trivial

theorem raises_fails (he : ¬e.Thrown) (h : s.Raises resize e x) : s.Fails resize e x := by
  rcases h with ⟨rfl, h⟩ | ⟨c, rfl, h⟩
  · obtain ⟨call, c⟩ := x
    cases call with
    | element nesting => exact .inr ⟨rfl, h⟩
    | value level nesting d v =>
      cases d with
      | vector d => exact (error_readVector he).mpr (.inr ⟨rfl, comes_of_hangs h⟩)
      | _ => exact h.elim
    | _ => exact h.elim
  · exact h

/-- **What is called fails**, and so does the caller. -/
theorem fails_of_calls (hs : s.Known) (he : ¬e.Thrown) (hx : s.Readable x) (h : s.Calls resize x y)
    (hy : s.Fails resize e y) : s.Fails resize e x := by
  cases h with
  | skip hblank hcomes => exact (error_skip hs he).mpr ⟨_, _, _, hblank, hcomes, hy⟩
  | arrayElement harray hbegin hround =>
    exact (error_trySkip hs he).mpr (.inl ⟨harray, _, hbegin,
      (error_skipElements hs).mpr ⟨_, hround, hy⟩⟩)
  | element => exact .inl hy
  | objectMemberName harray hobject hbegin hround hname =>
    exact (error_trySkip hs he).mpr (.inr ⟨harray, hobject, _, hbegin, (error_skipMembers hs).mpr
      ⟨_, hround, (error_skipMember he).mpr (.inl ⟨_, hname, hy⟩)⟩⟩)
  | objectMember harray hobject hbegin hround hname =>
    exact (error_trySkip hs he).mpr (.inr ⟨harray, hobject, _, hbegin, (error_skipMembers hs).mpr
      ⟨_, hround, (error_skipMember he).mpr (.inr ⟨_, _, hname, hy⟩)⟩⟩)
  | enumerator hformat hblank hqualifier =>
    rw [Fails, readType]
    exact (error_readEnum he).mpr ⟨hformat, _, _, hblank, hqualifier, hy⟩
  | vectorElement hround hlength =>
    exact (error_readVector he).mpr (.inl ⟨_, _, hround, (error_readElement he).mpr ⟨hlength, hy⟩⟩)
  | struct => exact hy
  | memberName hround hname =>
    exact (error_readStruct hs he hx).mpr ⟨_, _, hround, (error_readMember he).mpr (.inl ⟨_, hname, hy⟩)⟩
  | unknownMember hround hname hfind =>
    exact (error_readStruct hs he hx).mpr ⟨_, _, hround,
      (error_readMember he).mpr (.inr ⟨_, _, hname, .inl ⟨hfind, hy⟩⟩)⟩
  | property hround hname hfind hnull =>
    exact (error_readStruct hs he hx).mpr ⟨_, _, hround, (error_readMember he).mpr
      (.inr ⟨_, _, hname, .inr ⟨_, _, hfind, error_readValue.mpr ⟨_, hnull, hy⟩⟩⟩)⟩

/-- **What fails** raises, or calls something that fails. -/
theorem raises_or_calls (hs : s.Known) (he : ¬e.Thrown) (hx : s.Readable x)
    (h : s.Fails resize e x) : s.Raises resize e x ∨ ∃ y, s.Calls resize x y ∧ s.Fails resize e y := by
  obtain ⟨call, c⟩ := x
  cases call with
  | identifier => exact .inl (.inr ⟨c, rfl, h⟩)
  | skip nesting =>
    obtain ⟨c₁, k, d, hblank, hcomes, hfails⟩ := (error_skip hs he).mp h
    exact .inr ⟨_, .skip hblank hcomes, hfails⟩
  | trySkip nesting =>
    rcases (error_trySkip hs he).mp h with
      ⟨harray, c₁, hbegin, hfails⟩ | ⟨harray, hobject, c₁, hbegin, hfails⟩
    · obtain ⟨d, hround, hfails⟩ := (error_skipElements hs).mp hfails
      exact .inr ⟨_, .arrayElement harray hbegin hround, hfails⟩
    · obtain ⟨d, hround, hfails⟩ := (error_skipMembers hs).mp hfails
      rcases (error_skipMember he).mp hfails with ⟨d', hname, hfails⟩ | ⟨name, d', hname, hfails⟩
      · exact .inr ⟨_, .objectMemberName harray hobject hbegin hround hname, hfails⟩
      · exact .inr ⟨_, .objectMember harray hobject hbegin hround hname, hfails⟩
  | element nesting =>
    rcases h with h | h
    · exact .inr ⟨_, .element, h⟩
    · exact .inl (.inl h)
  | value level nesting d v =>
    cases d with
    | fundamental t =>
      rw [Fails, readType] at h
      exact absurd ((advances_readFundamental hx nesting).error h) he
    | enumeration name es =>
      rw [Fails, readType] at h
      obtain ⟨hformat, c₁, d, hblank, hqualifier, hfails⟩ := (error_readEnum he).mp h
      exact .inr ⟨_, .enumerator hformat hblank hqualifier, hfails⟩
    | vector d =>
      rcases (error_readVector he).mp h with ⟨vs', c', hround, hfails⟩ | ⟨rfl, c₁, vs', c₂, hbegin, hcomes⟩
      · obtain ⟨hlength, hfails⟩ := (error_readElement he).mp hfails
        exact .inr ⟨_, .vectorElement hround hlength, hfails⟩
      · have hfloat : s.converters.Bounded ∨ s.NoFloat d := hx
        exact .inl (.inl ⟨rfl, hangs_of_comes hs hfloat hbegin hcomes⟩)
    | struct ps =>
      rw [Fails, readType] at h
      exact .inr ⟨_, .struct, h⟩
  | members level nesting included ps x =>
    obtain ⟨x', d, hround, hfails⟩ := (error_readStruct hs he hx).mp h
    rcases (error_readMember he).mp hfails with ⟨d', hname, hfails⟩ | ⟨name, d', hname, hfails⟩
    · exact .inr ⟨_, .memberName hround hname, hfails⟩
    · rcases hfails with ⟨hfind, hfails⟩ | ⟨d'', v, hfind, hfails⟩
      · exact .inr ⟨_, .unknownMember hround hname hfind, hfails⟩
      · obtain ⟨c₃, hnull, hfails⟩ := error_readValue.mp hfails
        exact .inr ⟨_, .property hround hname hfind hnull, hfails⟩

/-- The types that are left to read, then the symbols, then the functions that are called one by the
other at one place. -/
def rank : Call × Cursor UInt8 → ℕ × ℕ
  | (.identifier, c) => (0, 4 * c.rest.length)
  | (.trySkip _, c) => (0, 4 * c.rest.length + 1)
  | (.skip _, c) => (0, 4 * c.rest.length + 2)
  | (.element _, c) => (0, 4 * c.rest.length + 3)
  | (.value _ _ d _, _) => (d.nodes, 0)
  | (.members _ _ _ ps _, _) => (ps.nodes, 0)

def Before (y x : Call × Cursor UInt8) : Prop := Prod.Lex (· < ·) (· < ·) (rank y) (rank x)

theorem wellFounded_before : WellFounded Before :=
  InvImage.wf rank (Prod.lex (⟨_, Nat.lt_wfRel.wf⟩ : WellFoundedRelation ℕ) ⟨_, Nat.lt_wfRel.wf⟩).wf

theorem nodes_findProperty {included : PropertySet} {name : List UInt8} {d' : TypeDescriptor}
    {v : Option (Value d')} : ∀ (ps : PropertyDescriptors) (x : Instance ps),
    findProperty included name ps x = some ⟨d', v⟩ → d'.nodes < ps.nodes
  | .nil, _, h => by
    rw [findProperty] at h
    cases h
  | .cons p d ps, (v, x), h => by
    rw [findProperty] at h
    rw [PropertyDescriptors.nodes]
    split_ifs at h
    · cases h
      omega
    · have hlt := nodes_findProperty ps x h
      omega

/-- **Each call** is of a smaller type, or nearer to the end of the input. -/
theorem before_of_calls (hs : s.Known) (h : s.Calls resize x y) : Before y x := by
  have hobjectBegin := length_token hs s.format.objectBegin (by simp)
  have hskips : ∀ nesting, RoundMoves Any 0 (tryReadArrayEnd s nesting)
      (fun _ : Unit => skip s (.array :: nesting)) := fun _ _ _ c₁ _ => advances_skip _ c₁
  have hmembers : ∀ nesting, RoundMoves Any 0 (tryReadObjectEnd s nesting)
      (fun _ : Unit => skipMember s (skip s) nesting) := fun _ _ _ c₁ _ =>
    (advances_skipMember advances_skip _).of_le (Nat.zero_le _) c₁
  cases h with
  | skip hblank hcomes =>
    have hle := (advances_consumeWhitespace (E := Any)).length_le hblank
    obtain ⟨n, -, hn, rfl⟩ := hcomes.moves (advances_trySkip advances_skip _) roundMoves_trySkip
    refine .right _ ?_
    rw [Cursor.rest_advance, List.length_drop]
    omega
  | arrayElement harray hbegin hround =>
    have hlength := length_token hs s.format.arrayBegin (by simp)
    have hle := advances_readArrayBegin.length_le hbegin
    have hlater := hround.length_le (advances_tryReadArrayEnd _) (hskips _)
    exact .right _ (by omega)
  | element => exact .right _ (Nat.lt_succ_self _)
  | objectMemberName harray hobject hbegin hround hname =>
    have hle := (advances_consumeTokenAfterWhitespace _).length_le hbegin
    have hlater := hround.length_le (advances_tryReadObjectEnd _) (hmembers _)
    have hbehind := (advances_consumeTokenAfterWhitespace _).length_le hname
    exact .right _ (by omega)
  | objectMember harray hobject hbegin hround hname =>
    have hle := (advances_consumeTokenAfterWhitespace _).length_le hbegin
    have hlater := hround.length_le (advances_tryReadObjectEnd _) (hmembers _)
    have hbehind := (advances_readObjectMemberName _).length_le hname
    exact .right _ (by omega)
  | enumerator hformat hblank hqualifier => exact .left _ _ (Nat.succ_pos _)
  | vectorElement hround hlength => exact .left _ _ (Nat.lt_succ_self _)
  | struct => exact .left _ _ (Nat.lt_succ_self _)
  | memberName hround hname => exact .left _ _ (PropertyDescriptors.nodes_pos _)
  | unknownMember hround hname hfind => exact .left _ _ (PropertyDescriptors.nodes_pos _)
  | property hround hname hfind hnull => exact .left _ _ (nodes_findProperty _ _ hfind)

/-- **A call does not end, or looks outside of a table**, exactly if it leads to one that does so by
itself. -/
theorem fails_iff (hs : s.Known) (he : ¬e.Thrown) (hx : s.Readable x) : s.Fails resize e x ↔
    ∃ y, Relation.ReflTransGen (s.Calls resize) x y ∧ s.Raises resize e y :=
  fails_iff_of_calls wellFounded_before (fun _ _ _ h => before_of_calls hs h)
    (fun _ _ hx h => readable_of_calls h hx) (fun _ h => raises_fails he h)
    (fun _ _ hx h => fails_of_calls hs he hx h) (fun _ hx h => raises_or_calls hs he hx h) hx

end Fails

/-! ## Reads that end inside of the input -/

section Ends

variable {x : Call × Cursor UInt8}

/-- None of the calls that a call leads to goes on without end. -/
def Ends (s : TextSerializer) (resize : Resize) (x : Call × Cursor UInt8) : Prop :=
  ∀ y, Relation.ReflTransGen (s.Calls resize) x y → ¬s.Hangs resize y

/-- No identifier that a call leads to has a symbol above `0x7F` behind it. -/
def LooksInside (s : TextSerializer) (resize : Resize) (x : Call × Cursor UInt8) : Prop :=
  ∀ y, Relation.ReflTransGen (s.Calls resize) x y → ¬LooksOutside y

theorem raises_hangs_iff : s.Raises resize .hangs x ↔ s.Hangs resize x := by
  refine ⟨?_, fun h => .inl ⟨rfl, h⟩⟩
  rintro (⟨-, h⟩ | ⟨c, -, h⟩)
  · exact h
  · exact absurd rfl (advances_identifier.error h)

variable (s resize) in
theorem exists_raises_outside_iff : (∃ o, s.Raises resize (.outside o) x) ↔ LooksOutside x := by
  constructor
  · rintro ⟨o, ⟨h, -⟩ | ⟨c, rfl, h⟩⟩
    · cases h
    · rw [run_identifier] at h
      split at h
      · cases h
      · rename_i b t hrest
        split_ifs at h with hb
        exact ⟨b, t, hrest, hb⟩
  · intro h
    obtain ⟨call, c⟩ := x
    cases call with
    | identifier =>
      obtain ⟨b, t, hrest, hb⟩ := h
      refine ⟨c.offset + (c.rest.takeWhile isIdentifierSymbol).length, .inr ⟨c, rfl, ?_⟩⟩
      rw [run_identifier, hrest]
      exact if_pos hb
    | _ => exact h.elim

theorem not_hangs_iff (hs : s.Known) (hx : s.Readable x) :
    ¬s.Fails resize .hangs x ↔ s.Ends resize x := by
  rw [fails_iff hs (e := .hangs) id hx]
  simp only [raises_hangs_iff, not_exists, not_and, Ends]

/-- **All errors are exceptions** if no call goes on without end or looks outside of the table. -/
theorem thrown_iff (hs : s.Known) (hx : s.Readable x) :
    (∀ e, s.Fails resize e x → e.Thrown) ↔ s.Ends resize x ∧ s.LooksInside resize x := by
  constructor
  · intro h
    refine ⟨(not_hangs_iff hs hx).mp (h .hangs), fun y hreach houtside => ?_⟩
    obtain ⟨o, hraises⟩ := (exists_raises_outside_iff s resize).mpr houtside
    exact h (.outside o) ((fails_iff hs id hx).mpr ⟨y, hreach, hraises⟩)
  · rintro ⟨hends, hinside⟩ e h
    by_contra he
    obtain ⟨y, hreach, hraises⟩ := (fails_iff hs he hx).mp h
    cases e with
    | hangs => exact hends y hreach (raises_hangs_iff.mp hraises)
    | outside o => exact hinside y hreach ((exists_raises_outside_iff s resize).mp ⟨o, hraises⟩)
    | _ => exact he trivial

/-- An object does not begin at the end of the input. -/
theorem not_fails_nil (hs : s.Known) (he : ¬e.Thrown) {ps : PropertyDescriptors} {x : Instance ps}
    {included : PropertySet} (hps : s.converters.Bounded ∨ s.NoFloats ps) :
    ¬s.Fails resize e (.members 1 [] included ps x, ⟨0, []⟩) := by
  intro h
  obtain ⟨x', d, ⟨c₁, hbegin, -⟩, -⟩ := (error_readStruct hs he hps).mp h
  have hle := (advances_readObjectBegin _).length_le hbegin
  have hlength := length_token hs s.format.objectBegin (by simp)
  rw [List.length_nil] at hle
  omega

theorem error_deserialize (hs : s.Known) (he : ¬e.Thrown) {ps : PropertyDescriptors}
    {x : Instance ps} {included : PropertySet} {data : List UInt8}
    (hps : s.converters.Bounded ∨ s.NoFloats ps) :
    deserialize s resize ps x included data = .error e ↔
      s.Fails resize e (.members 1 [] included ps x, ⟨0, data⟩) := by
  by_cases hdata : data = []
  · subst hdata
    refine iff_of_false (fun h => ?_) (not_fails_nil hs he hps)
    cases h
    exact he trivial
  · rw [run_deserialize hdata, Fails]
    cases (s.readStruct resize 1 [] included ps x).run ⟨0, data⟩ with
    | error e' =>
      show (Except.error e' : Except TextFailure (Instance ps × ℕ)) = .error e ↔ _
      rw [Except.error.injEq, Except.error.injEq]
    | ok r => exact iff_of_false nofun nofun

/-- **Reads end** exactly if none of the calls that they lead to goes on without end. -/
theorem ends_iff (hs : s.Known) (hconverters : s.converters.Bounded) (resize : Resize) :
    (∀ nesting c, (skip s nesting).run c ≠ .error .hangs ↔ s.Ends resize (.skip nesting, c)) ∧
    (∀ level nesting d v c, (s.readType resize level nesting d v).run c ≠ .error .hangs ↔
      s.Ends resize (.value level nesting d v, c)) ∧
    ∀ ps x included data, deserialize s resize ps x included data ≠ .error .hangs ↔
      s.Ends resize (.members 1 [] included ps x, ⟨0, data⟩) := by
  refine ⟨fun nesting c => ?_, fun level nesting d v c => ?_, fun ps x included data => ?_⟩
  · exact not_hangs_iff hs (x := (.skip nesting, c)) trivial
  · exact not_hangs_iff hs (x := (.value level nesting d v, c)) (.inl hconverters)
  · exact (not_congr (error_deserialize hs id (.inl hconverters))).trans
      (not_hangs_iff hs (x := (.members 1 [] included ps x, ⟨0, data⟩)) (.inl hconverters))

/-- The JSON of a struct without properties. -/
def readEmpty (data : List UInt8) : Except TextFailure (Instance .nil × ℕ) :=
  deserialize (JsonSerializer {} Json.uuidConverters) staticResize .nil () Finset.univ data

theorem bounded_uuidConverters : Json.uuidConverters.Bounded := by
  intro w
  have hle : (if (ascii "0.0").isPrefixOf w then 3 else 0) ≤ w.length := by
    split_ifs with h
    · exact (List.isPrefixOf_iff_prefix.mp h).length_le
    · exact Nat.zero_le _
  exact ⟨hle, hle⟩

/-- An unknown member whose array is not closed. -/
theorem hangs_openArray : readEmpty (ascii "\x7b\"x\":[") = .error .hangs := rfl

/-- An array that the end of an object closes. -/
theorem ends_iff_json :
    (JsonSerializer {} Json.uuidConverters).Ends staticResize
      (.members 1 [] Finset.univ .nil (), ⟨0, ascii "\x7b\"x\":[1]\x7d"⟩) ∧
    ¬(JsonSerializer {} Json.uuidConverters).Ends staticResize
      (.members 1 [] Finset.univ .nil (), ⟨0, ascii "\x7b\"x\":[1\x7d"⟩) := by
  have hiff := (ends_iff (s := JsonSerializer {} Json.uuidConverters) (.inl rfl) bounded_uuidConverters
    staticResize).2.2 .nil () Finset.univ
  have hread : readEmpty (ascii "\x7b\"x\":[1]\x7d") = .ok ((), 9) := rfl
  have hhangs : readEmpty (ascii "\x7b\"x\":[1\x7d") = .error .hangs := rfl
  refine ⟨(hiff _).mp fun h => ?_, fun h => (hiff _).mpr h hhangs⟩
  cases hread.symm.trans h

/-- A read stands in its input behind it, or throws an exception. -/
def Inside {α : Type} (c : Cursor UInt8) : Except TextFailure (α × Cursor UInt8) → Prop
  | .ok (_, d) => c.offset ≤ d.offset ∧ d.offset ≤ c.size
  | .error e => e.Thrown

theorem inside_of_moves {α : Type} {r : Except TextFailure (α × Cursor UInt8)} (h : Moves Any 0 c r) :
    Inside c r ↔ ∀ e, r = .error e → e.Thrown := by
  cases r with
  | error e => exact ⟨fun h e' he => Except.error.inj he ▸ h, fun h => h e rfl⟩
  | ok r =>
    obtain ⟨n, -, hn, hd⟩ := h
    refine iff_of_true ?_ nofun
    obtain ⟨a, d⟩ := r
    subst hd
    exact ⟨Nat.le_add_right _ _, Nat.add_le_add_left hn _⟩

/-- What was read of the input is in front of its end. -/
theorem deserialize_le (hs : s.Known) {ps : PropertyDescriptors} {x y : Instance ps}
    {included : PropertySet} {data : List UInt8} {n : ℕ} (hps : s.converters.Bounded ∨ s.NoFloats ps)
    (h : deserialize s resize ps x included data = .ok (y, n)) : n ≤ data.length := by
  by_cases hdata : data = []
  · subst hdata
    cases h
  · have hstruct : Advances Any 0 (s.readStruct resize 1 [] included ps x) :=
      (advances_readMembers (fun name x read hread =>
        advances_readProperty hs resize ps _ _ _ name hps x read hread) _ x).of_le (Nat.zero_le _)
    rw [run_deserialize hdata] at h
    cases hr : (s.readStruct resize 1 [] included ps x).run ⟨0, data⟩ with
    | error e =>
      rw [hr] at h
      cases h
    | ok r =>
      rw [hr] at h
      obtain ⟨k, -, hk, hd⟩ := hstruct.ok hr
      cases h
      rw [hd]
      exact (Nat.zero_add k).trans_le hk

/-- **Reads stay inside** of their input and of the table exactly if each call that they lead to
ends, and no identifier has a symbol above `0x7F` behind it. -/
theorem inside_iff (hs : s.Known) (resize : Resize) :
    (∀ nesting c, Inside c ((skip s nesting).run c) ↔
      s.Ends resize (.skip nesting, c) ∧ s.LooksInside resize (.skip nesting, c)) ∧
    (∀ level nesting d v c, s.NoFloat d → (Inside c ((s.readType resize level nesting d v).run c) ↔
      s.Ends resize (.value level nesting d v, c) ∧
        s.LooksInside resize (.value level nesting d v, c))) ∧
    ∀ ps x included data, s.NoFloats ps →
      ((∃ e, deserialize s resize ps x included data = .error e ∧ e.Thrown) ∨
          (∃ y n, deserialize s resize ps x included data = .ok (y, n) ∧ n ≤ data.length) ↔
        s.Ends resize (.members 1 [] included ps x, ⟨0, data⟩) ∧
          s.LooksInside resize (.members 1 [] included ps x, ⟨0, data⟩)) := by
  refine ⟨fun nesting c => ?_, fun level nesting d v c hd => ?_, fun ps x included data hps => ?_⟩
  · refine Iff.trans (inside_of_moves (advances_skip nesting c)) ?_
    exact thrown_iff hs (x := (.skip nesting, c)) trivial
  · refine Iff.trans (inside_of_moves (advances_readType hs resize d level nesting 0 (.inr hd)
      (.inl rfl) v c)) ?_
    exact thrown_iff hs (x := (.value level nesting d v, c)) (.inr hd)
  · rw [← thrown_iff hs (x := (.members 1 [] included ps x, ⟨0, data⟩)) (.inr hps)]
    have hfails : ∀ e, ¬e.Thrown → (s.Fails resize e (.members 1 [] included ps x, ⟨0, data⟩) ↔
        deserialize s resize ps x included data = .error e) :=
      fun e he => (error_deserialize hs he (.inr hps)).symm
    cases hr : deserialize s resize ps x included data with
    | error e =>
      constructor
      · rintro (⟨e', he', hthrown⟩ | ⟨y, n, hok, -⟩) e'' h
        · by_contra he''
          rw [hfails e'' he'', hr, he'] at h
          exact he'' (Except.error.inj h ▸ hthrown)
        · cases hok
      · intro h
        refine .inl ⟨e, rfl, ?_⟩
        by_contra he
        exact he (h e ((hfails e he).mpr hr))
    | ok r =>
      obtain ⟨y, n⟩ := r
      refine iff_of_true (.inr ⟨y, n, rfl, deserialize_le hs (.inr hps) hr⟩) fun e h => ?_
      by_contra he
      rw [hfails e he, hr] at h
      cases h

/-- A name that goes on with a symbol above `0x7F`. -/
theorem outside_name : readEmpty (ascii "\x7b\"" ++ [0xC3]) = .error (.outside 2) := rfl

theorem not_inside_name :
    ¬((∃ e, readEmpty (ascii "\x7b\"" ++ [0xC3]) = .error e ∧ e.Thrown) ∨
      ∃ y n, readEmpty (ascii "\x7b\"" ++ [0xC3]) = .ok (y, n) ∧
        n ≤ (ascii "\x7b\"" ++ [0xC3]).length) := by
  rw [outside_name]
  rintro (⟨e, he, hthrown⟩ | ⟨y, n, hok, -⟩)
  · cases he
    exact hthrown
  · cases hok

theorem inside_iff_json :
    (JsonSerializer {} Json.uuidConverters).LooksInside staticResize
      (.members 1 [] Finset.univ .nil (), ⟨0, ascii "\x7b\"x\":1\x7d"⟩) := by
  have hiff := (inside_iff (s := JsonSerializer {} Json.uuidConverters) (.inl rfl) staticResize).2.2
    .nil () Finset.univ (ascii "\x7b\"x\":1\x7d") trivial
  have hread : readEmpty (ascii "\x7b\"x\":1\x7d") = .ok ((), 7) := rfl
  exact (hiff.mp (.inr ⟨(), 7, hread, by decide⟩)).2

end Ends

end TextSerializer

end Dots
