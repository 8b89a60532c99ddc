import Dots.Lib.Progress
import Dots.Text.Legible

/-!
# How far a text reader goes

* `TextFailure.Thrown`: the errors that are exceptions.
* `advances_readType`, ...: each function passes symbols of its input only. A value that is not at
  the outermost level takes at least one.
* **`skip_eq`**: `skip` calls itself, and the number of arrays and objects inside of one another
  does not matter.
* **`stays_of_skip`**: where `skip` passes no symbol, the input is at its end or at the end of an
  array or object.
-/

set_option autoImplicit false

namespace Dots

open Parse
open TextWriter (State)

/-- An exception. -/
def TextFailure.Thrown : TextFailure → Prop
  | .outside _ => False
  | .hangs => False
  | _ => True

/-- An error that ends the read. -/
def TextFailure.Ended (e : TextFailure) : Prop := e ≠ .hangs

theorem TextFailure.Thrown.ended {e : TextFailure} (h : e.Thrown) : e.Ended := by
  rintro rfl
  exact h

/-- The conversions of floating-point values take no more than there is. -/
def Converters.Bounded (converters : Converters) : Prop :=
  ∀ w, (converters.strtof w).2 ≤ w.length ∧ (converters.strtod w).2 ≤ w.length

namespace TextReader

open TextFailure (Thrown Ended)

variable {s : TextSerializer} {nesting : List State} {α : Type} {E : TextFailure → Prop} {k n : ℕ}
  {c c' : Cursor UInt8} {read : ReadText α}

/-! ## Tokens -/

theorem advances_tokenError (expected : List UInt8) :
    Advances Thrown k (tokenError expected : ReadText α) := .fail fun _ => trivial

theorem moves_inputAdvance (hk : k ≤ n) (hn : n ≤ c.rest.length) :
    Moves E k c ((inputAdvance n).run c) :=
  ⟨n, hk, hn, rfl⟩

theorem drop_length_takeWhile (p : UInt8 → Bool) (l : List UInt8) :
    l.drop (l.takeWhile p).length = l.dropWhile p := by
  calc l.drop (l.takeWhile p).length
      = (l.takeWhile p ++ l.dropWhile p).drop (l.takeWhile p).length := by
        rw [List.takeWhile_append_dropWhile]
    _ = l.dropWhile p := List.drop_left

theorem advances_consumeWhitespace : Advances E 0 consumeWhitespace :=
  fun _ => ⟨_, Nat.zero_le _, (List.takeWhile_prefix _).length_le, rfl⟩

/-- Where no whitespace comes first, none is passed. -/
theorem run_consumeWhitespace_of_nonBlank (h : NonBlank c.rest) :
    consumeWhitespace.run c = .ok ((), c) := by
  have hnone : c.rest.takeWhile isWhitespace = [] :=
    takeWhile_blank (w := []) (fun b hb => absurd hb List.not_mem_nil) h
  show Except.ok ((), c.advance (c.rest.takeWhile isWhitespace).length) = _
  rw [hnone, List.length_nil, Cursor.advance_zero]

theorem nonBlank_of_consumeWhitespace (h : consumeWhitespace.run c = .ok ((), c')) :
    NonBlank c'.rest := by
  cases h
  intro b hb
  have hdrop := List.head?_dropWhile_not isWhitespace c.rest
  rw [Cursor.rest_advance, drop_length_takeWhile] at hb
  rw [hb] at hdrop
  exact hdrop

theorem run_tryConsumeToken (token : List UInt8) (c : Cursor UInt8) :
    (tryConsumeToken token).run c =
      if token <+: c.rest then .ok (true, c.advance token.length) else .ok (false, c) := by
  show (if token.isPrefixOf c.rest = true then _ else _) = _
  simp only [List.isPrefixOf_iff_prefix]

theorem advances_tryConsumeToken (token : List UInt8) : Advances E 0 (tryConsumeToken token) := by
  intro c
  rw [run_tryConsumeToken]
  split_ifs with htoken
  · exact ⟨token.length, Nat.zero_le _, htoken.length_le, rfl⟩
  · exact ⟨0, le_rfl, Nat.zero_le _, Cursor.advance_zero.symm⟩

theorem advances_consumeToken (token : List UInt8) :
    Advances Thrown token.length (consumeToken token) := by
  intro c
  rw [consumeToken, StateT.run_bind, run_tryConsumeToken]
  split_ifs with htoken
  · exact ⟨token.length, le_rfl, htoken.length_le, rfl⟩
  · exact trivial

theorem advances_consumeTokenAfterWhitespace (token : List UInt8) :
    Advances Thrown token.length (consumeTokenAfterWhitespace token) :=
  advances_consumeWhitespace.bind_right fun _ => advances_consumeToken token

theorem advances_tryConsumeTokenAfterWhitespace (token : List UInt8) :
    Advances E 0 (tryConsumeTokenAfterWhitespace token) :=
  advances_consumeWhitespace.bind_right fun _ => advances_tryConsumeToken token

theorem advances_finalizeRead (nesting : List State) : Advances E 0 (finalizeRead s nesting) := by
  rcases nesting with _ | ⟨state | state, nesting⟩
  · exact .pure ()
  · exact (advances_tryConsumeTokenAfterWhitespace _).bind_left fun _ => .pure ()
  · exact (advances_tryConsumeTokenAfterWhitespace _).bind_left fun _ => .pure ()

theorem advances_finalized (h : Advances E k read) : Advances E k (finalized s nesting read) :=
  h.bind_left fun _ => (advances_finalizeRead nesting).bind_left fun _ => .pure _

/-! ## Arrays and objects -/

theorem advances_readArrayBegin : Advances Thrown s.format.arrayBegin.length (readArrayBegin s) :=
  advances_consumeTokenAfterWhitespace _

theorem advances_tryReadArrayEnd (nesting : List State) :
    Advances E 0 (tryReadArrayEnd s nesting) := by
  refine (advances_tryConsumeTokenAfterWhitespace _).bind_left fun found => ?_
  cases found with
  | true => exact (advances_finalizeRead nesting).bind_left fun _ => .pure true
  | false => exact .pure false

theorem advances_tryReadObjectEnd (nesting : List State) :
    Advances E 0 (tryReadObjectEnd s nesting) := by
  refine (advances_tryConsumeTokenAfterWhitespace _).bind_left fun found => ?_
  cases found with
  | true => exact (advances_finalizeRead nesting).bind_left fun _ => .pure true
  | false => exact .pure false

theorem advances_readObjectBegin (objectTypeName : List UInt8) :
    Advances Thrown s.format.objectBegin.length (readObjectBegin s objectTypeName) := by
  have hbegin := advances_consumeTokenAfterWhitespace s.format.objectBegin
  rw [readObjectBegin]
  split
  · exact ((advances_consumeTokenAfterWhitespace _).of_le (Nat.zero_le _)).bind_right fun _ => hbegin
  · exact (advances_tryConsumeTokenAfterWhitespace _).bind_right fun _ => hbegin
  · exact hbegin

/-- The identifier at the front, if the symbol behind it has a place in the table. -/
theorem run_identifier (c : Cursor UInt8) : identifier.run c =
    match c.rest.dropWhile isIdentifierSymbol with
    | [] => .ok (c.rest.takeWhile isIdentifierSymbol,
        c.advance (c.rest.takeWhile isIdentifierSymbol).length)
    | b :: _ =>
      if 0x80 ≤ b then
        .error (.outside (c.offset + (c.rest.takeWhile isIdentifierSymbol).length))
      else .ok (c.rest.takeWhile isIdentifierSymbol,
        c.advance (c.rest.takeWhile isIdentifierSymbol).length) := by
  show (match c.rest.drop (c.rest.takeWhile isIdentifierSymbol).length with
    | [] => _
    | b :: _ => _) = _
  rw [drop_length_takeWhile]

theorem advances_identifier : Advances Ended 0 identifier := by
  intro c
  have hmoves : Moves Ended 0 c (.ok (c.rest.takeWhile isIdentifierSymbol,
      c.advance (c.rest.takeWhile isIdentifierSymbol).length)) :=
    ⟨_, Nat.zero_le _, (List.takeWhile_prefix _).length_le, rfl⟩
  rw [run_identifier]
  split
  · exact hmoves
  · split_ifs
    · exact nofun
    · exact hmoves

theorem advances_readIdentifierString (nesting : List State) :
    Advances Ended 0 (readIdentifierString s nesting) := advances_finalized advances_identifier

theorem advances_readObjectMemberName (nesting : List State) :
    Advances Ended s.format.objectMemberNameBegin.length (readObjectMemberName s nesting) := by
  have htoken : ∀ token, Advances Ended 0 (consumeTokenAfterWhitespace token) := fun token =>
    (advances_consumeTokenAfterWhitespace token).mono (fun _ => Thrown.ended) (Nat.zero_le _)
  refine ((advances_consumeTokenAfterWhitespace _).mono (fun _ => Thrown.ended) le_rfl).bind_left
    fun _ => (advances_readIdentifierString nesting).bind_left fun name => ?_
  split_ifs
  · exact (htoken _).bind_left fun _ => (htoken _).bind_left fun _ => .pure name
  · exact (htoken _).bind_left fun _ => .pure name

theorem advances_tryReadNull (nesting : List State) : Advances E 0 (tryReadNull s nesting) := by
  rw [tryReadNull]
  split_ifs
  · exact .pure false
  · refine (advances_tryConsumeTokenAfterWhitespace _).bind_left fun found => ?_
    cases found with
    | true => exact (advances_finalizeRead nesting).bind_left fun _ => .pure true
    | false => exact .pure false

/-! ## Fundamental types -/

/-- What is done with a token or without it. -/
theorem advances_ite_token {yes no : ReadText α} (token : List UInt8) (hyes : Advances E 0 yes)
    (hno : Advances E k no) (hk : k ≤ token.length) :
    Advances E k (do if ← tryConsumeToken token then yes else no) := by
  intro c
  rw [StateT.run_bind, run_tryConsumeToken]
  by_cases htoken : token <+: c.rest
  · rw [if_pos htoken]
    show Moves E k c (yes.run (c.advance token.length))
    have hmoves := hyes (c.advance token.length)
    cases hr : yes.run (c.advance token.length) with
    | error e =>
      rw [hr] at hmoves
      exact hmoves
    | ok r =>
      obtain ⟨n, -, hn, hc⟩ := hyes.ok hr
      have hle := htoken.length_le
      rw [Cursor.rest_advance, List.length_drop] at hn
      exact ⟨token.length + n, by omega, by omega, by rw [hc, Cursor.advance_advance]⟩
  · rw [if_neg htoken]
    exact hno c

theorem advances_readBool : Advances Thrown 1 readBool := by
  refine advances_consumeWhitespace.bind_right fun _ => ?_
  refine advances_ite_token _ (.pure true) ?_ (by decide)
  exact advances_ite_token _ (.pure false) (advances_tokenError _) (by decide)

theorem advances_readSuffix (nesting : List State) (hasSuffix : Bool) (str : List UInt8) :
    Advances Thrown 0 (readSuffix s nesting hasSuffix str) := by
  rw [readSuffix]
  split_ifs
  · exact (advances_consumeToken str).of_le (Nat.zero_le _)
  · exact (advances_tryConsumeToken str).bind_left fun _ => .pure ()
  · exact .pure ()

theorem fromCharsUnsigned_le {w base : ℕ} {text : List UInt8} {v : BitVec w}
    (h : fromCharsUnsigned w base text = some (v, n)) : 1 ≤ n ∧ n ≤ text.length := by
  simp only [fromCharsUnsigned] at h
  split_ifs at h with hdigits
  obtain ⟨-, rfl⟩ := Prod.mk.inj (Option.some.inj h)
  rw [not_or] at hdigits
  exact ⟨List.length_pos_iff.mpr hdigits.1, length_leadingDigits_le base text⟩

theorem fromCharsSigned_le {w base : ℕ} {text : List UInt8} {v : BitVec w}
    (h : fromCharsSigned w base text = some (v, n)) : 1 ≤ n ∧ n ≤ text.length := by
  simp only [fromCharsSigned] at h
  cases hsign : (ascii "-").isPrefixOf text with
  | true =>
    simp only [hsign, if_true] at h
    split_ifs at h with hdigits
    obtain ⟨-, rfl⟩ := Prod.mk.inj (Option.some.inj h)
    have hle := length_leadingDigits_le base (text.drop 1)
    have hlength : 1 ≤ text.length := (List.isPrefixOf_iff_prefix.mp hsign).length_le
    rw [List.length_drop] at hle
    rw [Bool.toNat_true]
    omega
  | false =>
    simp only [hsign, Bool.false_eq_true, if_false] at h
    split_ifs at h with hdigits
    obtain ⟨-, rfl⟩ := Prod.mk.inj (Option.some.inj h)
    rw [not_or] at hdigits
    exact ⟨List.length_pos_iff.mpr hdigits.1, length_leadingDigits_le base text⟩

theorem advances_readInteger {w : ℕ} (nesting : List State) (isUnsigned : Bool)
    {fromChars : (base : ℕ) → List UInt8 → Option (BitVec w × ℕ)}
    (h : ∀ base text v n, fromChars base text = some (v, n) → 1 ≤ n ∧ n ≤ text.length) :
    Advances Thrown 1 (readInteger s nesting isUnsigned fromChars) := by
  have hbase : Advances Thrown 0 (do
      if ← tryConsumeToken (ascii "0b") then return 2
      else if ← tryConsumeToken (ascii "0x") then return 16
      else return 10 : ReadText ℕ) :=
    advances_ite_token _ (.pure 2) (advances_ite_token _ (.pure 16) (.pure 10) (Nat.zero_le _))
      (Nat.zero_le _)
  refine advances_consumeWhitespace.bind_right fun _ => hbase.bind_right fun base c => ?_
  rw [run_input_bind]
  cases hvalue : fromChars base c.rest with
  | none => exact advances_tokenError (k := 1) _ c
  | some v =>
    obtain ⟨v, n⟩ := v
    obtain ⟨hpos, hle⟩ := h base c.rest v n hvalue
    exact (moves_inputAdvance hpos hle).bind fun _ c' _ =>
      ((advances_readSuffix nesting _ _).bind_left fun _ => .pure v) c'

theorem advances_readUnsigned (w : ℕ) (nesting : List State) :
    Advances Thrown 1 (readUnsigned s w nesting) :=
  advances_finalized (advances_readInteger nesting true fun _ _ _ _ => fromCharsUnsigned_le)

theorem advances_readSigned (w : ℕ) (nesting : List State) :
    Advances Thrown 1 (readSigned s w nesting) :=
  advances_finalized (advances_readInteger nesting false fun _ _ _ _ => fromCharsSigned_le)

theorem advances_readFloat {w : ℕ} {parse : List UInt8 → BitVec w × ℕ}
    (h : ∀ text, (parse text).2 ≤ text.length) : Advances Thrown 1 (readFloat parse) := by
  intro c
  show Moves Thrown 1 c ((if (parse c.rest).2 = 0 then tokenError (ascii "<floating point value>")
    else do
      inputAdvance (parse c.rest).2
      return (parse c.rest).1 : ReadText (BitVec w)).run c)
  split_ifs with hzero
  · exact advances_tokenError (k := 1) _ c
  · exact (moves_inputAdvance (Nat.pos_of_ne_zero hzero) (h c.rest)).bind fun _ c' _ =>
      Advances.pure _ c'

theorem advances_readAll : Advances E 0 readAll := by
  refine advances_consumeWhitespace.bind_right fun _ c => ?_
  exact (moves_inputAdvance (n := c.rest.length) (Nat.zero_le _) le_rfl).bind fun _ c' _ =>
    Advances.pure _ c'

theorem advances_readEscapedSymbol (token : List UInt8) :
    Advances Thrown 1 (readEscapedSymbol token) := by
  rintro ⟨o, _ | ⟨b, rest⟩⟩
  · exact trivial
  show Moves Thrown 1 _ ((if stringEscape.isPrefixOf (b :: rest) = true then _ else _ :
    ReadText (List UInt8)).run _)
  split_ifs
  · cases hfind : StringEscapeMapping.find? fun m => m.2.isPrefixOf (b :: rest) with
    | none => exact advances_tokenError (k := 1) _ _
    | some m =>
      have hpos : ∀ m ∈ StringEscapeMapping, 1 ≤ m.2.length := by decide
      have hfound : m.2.isPrefixOf (b :: rest) = true :=
        List.find?_some (p := fun m : List UInt8 × List UInt8 => m.2.isPrefixOf (b :: rest)) hfind
      have hle := (List.isPrefixOf_iff_prefix.mp hfound).length_le
      exact (moves_inputAdvance (hpos m (List.mem_of_find?_eq_some hfind)) hle).bind fun _ c' _ =>
        Advances.pure _ c'
  · exact (moves_inputAdvance le_rfl (Nat.succ_pos _)).bind fun _ c' _ => Advances.pure _ c'

theorem advances_readDelimited {symbol : List UInt8 → ReadText (List UInt8)}
    (h : ∀ token, Advances Thrown 1 (symbol token)) : Advances Thrown 1 (readDelimited symbol) :=
  (advances_consumeTokenAfterWhitespace stringDelimiter).bind_left fun _ =>
    .loop (advances_tryConsumeToken _) fun token _ c₁ _ => h token c₁

/-- A string that is not at the outermost level has delimiters. -/
theorem advances_readEscapedString (nesting : List State) :
    Advances Thrown (min 1 nesting.length) (readEscapedString s nesting) := by
  refine advances_finalized ?_
  cases nesting with
  | nil => exact advances_readAll
  | cons state nesting =>
    exact (advances_readDelimited advances_readEscapedSymbol).of_le (Nat.min_le_left _ _)

theorem length_beforeDelimiter {value : List UInt8} :
    ∀ {tokenInput : List UInt8}, beforeDelimiter tokenInput = some value →
      value.length + 1 ≤ tokenInput.length
  | [], h => by cases h
  | b :: tokenInput, h => by
    rw [beforeDelimiter] at h
    split_ifs at h
    · cases h
      exact Nat.succ_pos _
    · obtain ⟨value', hvalue', rfl⟩ := Option.map_eq_some_iff.mp h
      exact Nat.succ_le_succ (length_beforeDelimiter hvalue')

theorem advances_readQuoted : Advances Thrown 1 readQuoted := by
  refine (advances_consumeTokenAfterWhitespace stringDelimiter).bind_left fun _ c => ?_
  rw [run_input_bind]
  cases hvalue : beforeDelimiter c.rest with
  | none => exact advances_tokenError (k := 0) stringDelimiter c
  | some value =>
    exact (moves_inputAdvance (Nat.zero_le _) (length_beforeDelimiter hvalue)).bind fun _ c' _ =>
      Advances.pure value c'

theorem advances_readQuotedString (nesting : List State) :
    Advances Thrown (min 1 nesting.length) (readQuotedString s nesting) := by
  refine advances_finalized ?_
  cases nesting with
  | nil => exact advances_readAll
  | cons state nesting =>
    exact advances_readQuoted.of_le (Nat.min_le_left _ _)

theorem advances_converted (value : Option α) : Advances Thrown 0 (converted value) := by
  cases value with
  | none => exact .fail fun _ => trivial
  | some v => exact .pure v

/-! ## Skipping -/

/-- An error or a loop without end. -/
def Any (_ : TextFailure) : Prop := True

theorem advances_any (h : Advances E k read) : Advances Any k read := h.mono (fun _ _ => trivial) le_rfl

/-- The first symbol is passed by `skip`. -/
def Ordinary (s : TextSerializer) (rest : List UInt8) : Prop :=
  rest ≠ [] ∧ ∀ token ∈ [stringDelimiter, s.format.arrayBegin, s.format.objectBegin,
    s.format.arrayElementSeparator, s.format.objectMemberValueEnd, s.format.arrayEnd,
    s.format.objectEnd], ¬token <+: rest

variable {f g : List State → ReadText Unit}

/-- The elements of an array, each skipped by `f`. -/
def skipElements (s : TextSerializer) (f : List State → ReadText Unit) (nesting : List State) :
    ReadText Unit :=
  Parse.loop (tryReadArrayEnd s nesting) (fun _ => f (.array :: nesting)) (fun _ => .hangs) ()

def skipMember (s : TextSerializer) (f : List State → ReadText Unit) (nesting : List State) :
    ReadText Unit := do
  let _ ← readObjectMemberName s (.object :: nesting)
  f (.object :: nesting)

/-- The members of an object. -/
def skipMembers (s : TextSerializer) (f : List State → ReadText Unit) (nesting : List State) :
    ReadText Unit :=
  Parse.loop (tryReadObjectEnd s nesting) (fun _ => skipMember s f nesting) (fun _ => .hangs) ()

theorem run_trySkip (f : List State → ReadText Unit) (nesting : List State) (c : Cursor UInt8) :
    (trySkip s f nesting).run c = StateT.run (do
      if c.rest = [] then return true
      else if stringDelimiter.isPrefixOf c.rest then
        let _ ← readEscapedString s nesting
        return true
      else if s.format.arrayBegin.isPrefixOf c.rest then
        readArrayBegin s
        skipElements s f nesting
        return true
      else if s.format.objectBegin.isPrefixOf c.rest then
        consumeTokenAfterWhitespace s.format.objectBegin
        skipMembers s f nesting
        return true
      else if s.format.arrayElementSeparator.isPrefixOf c.rest then
        consumeToken s.format.arrayElementSeparator
        return true
      else if s.format.objectMemberValueEnd.isPrefixOf c.rest then
        consumeToken s.format.objectMemberValueEnd
        return true
      else return s.format.arrayEnd.isPrefixOf c.rest ∨ s.format.objectEnd.isPrefixOf c.rest :
        ReadText Bool) c := rfl

theorem run_trySkip_of_ordinary (h : Ordinary s c.rest) (nesting : List State) :
    (trySkip s f nesting).run c = .ok (false, c) := by
  obtain ⟨hrest, htokens⟩ := h
  simp only [List.forall_mem_cons, List.not_mem_nil, false_implies, implies_true, and_true] at htokens
  obtain ⟨h₁, h₂, h₃, h₄, h₅, h₆, h₇⟩ := htokens
  simp only [← List.isPrefixOf_iff_prefix] at h₁ h₂ h₃ h₄ h₅ h₆ h₇
  rw [run_trySkip, if_neg hrest, if_neg h₁, if_neg h₂, if_neg h₃, if_neg h₄, if_neg h₅]
  rw [Bool.not_eq_true] at h₆ h₇
  rw [h₆, h₇]
  rfl

theorem ordinary_of_trySkip (h : (trySkip s f nesting).run c = .ok (false, c')) :
    Ordinary s c.rest ∧ c' = c := by
  rw [run_trySkip] at h
  have hfalse : ∀ {α : Type} {m : ReadText α},
      (m >>= fun _ => pure true : ReadText Bool).run c ≠ .ok (false, c') := by
    intro α m hrun
    obtain ⟨_, _, -, hrun⟩ := ok_bind_iff.mp hrun
    cases hrun
  split_ifs at h with h₁ h₂ h₃ h₄ h₅ h₆
  · cases h
  · exact absurd h hfalse
  · obtain ⟨_, _, -, h⟩ := ok_bind_iff.mp h
    obtain ⟨_, _, -, h⟩ := ok_bind_iff.mp h
    cases h
  · obtain ⟨_, _, -, h⟩ := ok_bind_iff.mp h
    obtain ⟨_, _, -, h⟩ := ok_bind_iff.mp h
    cases h
  · exact absurd h hfalse
  · exact absurd h hfalse
  · obtain ⟨hclosing, rfl⟩ := Prod.mk.inj (Except.ok.inj h)
    rw [decide_eq_false_iff_not, not_or] at hclosing
    refine ⟨⟨h₁, ?_⟩, rfl⟩
    simp only [List.forall_mem_cons, List.not_mem_nil, false_implies, implies_true, and_true,
      ← List.isPrefixOf_iff_prefix]
    exact ⟨h₂, h₃, h₄, h₅, h₆, hclosing.1, hclosing.2⟩

theorem roundMoves_trySkip :
    RoundMoves E 1 (trySkip s f nesting) fun _ : Unit => inputAdvance 1 := by
  rintro ⟨⟩ c c₁ h
  obtain ⟨hordinary, rfl⟩ := ordinary_of_trySkip h
  exact moves_inputAdvance le_rfl (List.length_pos_iff.mpr hordinary.1)

theorem advances_skipElements (h : ∀ nesting, Advances Any 0 (f nesting)) (nesting : List State) :
    Advances Any 0 (skipElements s f nesting) :=
  .loop_of_error (advances_tryReadArrayEnd nesting) (fun _ _ c₁ _ => h _ c₁) fun _ => trivial

theorem advances_skipMember (h : ∀ nesting, Advances Any 0 (f nesting)) (nesting : List State) :
    Advances Any s.format.objectMemberNameBegin.length (skipMember s f nesting) :=
  (advances_any (advances_readObjectMemberName _)).bind_left fun _ => h _

theorem advances_skipMembers (h : ∀ nesting, Advances Any 0 (f nesting)) (nesting : List State) :
    Advances Any 0 (skipMembers s f nesting) :=
  .loop_of_error (advances_tryReadObjectEnd nesting)
    (fun _ _ c₁ _ => (advances_skipMember h nesting).of_le (Nat.zero_le _) c₁) fun _ => trivial

/-- The end of an array or object, or of the input. -/
def AtEnd (s : TextSerializer) (rest : List UInt8) : Prop :=
  rest = [] ∨ s.format.arrayEnd <+: rest ∨ s.format.objectEnd <+: rest

theorem length_token (hs : s.Known) : ∀ token ∈ [s.format.arrayBegin, s.format.objectBegin,
    s.format.arrayElementSeparator, s.format.objectMemberValueEnd, s.format.objectMemberNameBegin],
    token.length = 1 := by
  rcases hs with hs | hs <;> rw [hs] <;> decide

/-- **A value, a separator or nothing is skipped.** -/
theorem moves_trySkip (h : ∀ nesting, Advances Any 0 (f nesting)) (nesting : List State)
    (hk : k = 0 ∨ s.Known ∧ k = 1 ∧ nesting ≠ [] ∧ ¬Ordinary s c.rest ∧ ¬AtEnd s c.rest) :
    Moves Any k c ((trySkip s f nesting).run c) := by
  have htoken : ∀ token ∈ [s.format.arrayBegin, s.format.objectBegin,
      s.format.arrayElementSeparator, s.format.objectMemberValueEnd,
      s.format.objectMemberNameBegin], k ≤ token.length := by
    intro token htoken
    rcases hk with rfl | ⟨hs, rfl, -⟩
    · exact Nat.zero_le _
    · exact (length_token hs token htoken).ge
  rw [run_trySkip]
  split_ifs with h₁ h₂ h₃ h₄ h₅ h₆
  · obtain rfl : k = 0 := hk.resolve_right fun hk => hk.2.2.2.2 (.inl h₁)
    exact Advances.pure true c
  · have hlevel : k ≤ min 1 nesting.length := by
      rcases hk with rfl | ⟨-, rfl, hnesting, -⟩
      · exact Nat.zero_le _
      · exact le_min le_rfl (List.length_pos_iff.mpr hnesting)
    exact ((advances_any (advances_readEscapedString nesting)).of_le hlevel).bind_left
      (fun _ => .pure true) c
  · exact ((advances_any advances_readArrayBegin).of_le (htoken _ (by simp))).bind_left
      (fun _ => (advances_skipElements h nesting).bind_left fun _ => .pure true) c
  · exact ((advances_any (advances_consumeTokenAfterWhitespace _)).of_le
      (htoken _ (by simp))).bind_left
      (fun _ => (advances_skipMembers h nesting).bind_left fun _ => .pure true) c
  · exact ((advances_any (advances_consumeToken _)).of_le (htoken _ (by simp))).bind_left
      (fun _ => .pure true) c
  · exact ((advances_any (advances_consumeToken _)).of_le (htoken _ (by simp))).bind_left
      (fun _ => .pure true) c
  · obtain rfl : k = 0 := by
      refine hk.resolve_right fun hk => ?_
      obtain ⟨-, -, -, hordinary, hend⟩ := hk
      rw [AtEnd, not_or, not_or] at hend
      refine hordinary ⟨h₁, ?_⟩
      simp only [List.forall_mem_cons, List.not_mem_nil, false_implies, implies_true, and_true,
        ← List.isPrefixOf_iff_prefix]
      rw [← List.isPrefixOf_iff_prefix, ← List.isPrefixOf_iff_prefix] at hend
      exact ⟨h₂, h₃, h₄, h₅, h₆, hend.2⟩
    exact Advances.pure _ c

theorem advances_trySkip (h : ∀ nesting, Advances Any 0 (f nesting)) (nesting : List State) :
    Advances Any 0 (trySkip s f nesting) := fun _ => moves_trySkip h nesting (.inl rfl)

theorem advances_skipDepth (depth : ℕ) (nesting : List State) :
    Advances Any 0 (skipDepth s depth nesting) := by
  induction depth generalizing nesting with
  | zero => exact .fail fun _ => trivial
  | succ depth ih =>
    rw [skipDepth]
    refine advances_consumeWhitespace.bind_left fun _ => ?_
    exact .loop (advances_trySkip ih nesting) roundMoves_trySkip

theorem run_skip (nesting : List State) (c : Cursor UInt8) :
    (skip s nesting).run c = (skipDepth s (c.rest.length + 1) nesting).run c := by
  unfold skip
  rw [StateT.run]

theorem advances_skip (nesting : List State) : Advances Any 0 (skip s nesting) := by
  intro c
  rw [run_skip]
  exact advances_skipDepth (c.rest.length + 1) nesting c

theorem agree_trySkip (hs : s.Known) (hf : ∀ nesting, Advances Any 0 (f nesting))
    (h : ∀ k < n, ∀ nesting, AgreeUpTo k (f nesting) (g nesting)) (nesting : List State) :
    AgreeUpTo n (trySkip s f nesting) (trySkip s g nesting) := by
  have harray : Advances Any 1 (readArrayBegin s) :=
    advances_any (advances_readArrayBegin.of_le (length_token hs _ (by simp)).ge)
  have hobject : Advances Any 1 (consumeTokenAfterWhitespace s.format.objectBegin) :=
    advances_any ((advances_consumeTokenAfterWhitespace _).of_le (length_token hs _ (by simp)).ge)
  intro c hc
  rw [run_trySkip, run_trySkip]
  split_ifs
  · rfl
  · rfl
  · refine AgreeUpTo.behind harray (fun k hk _ => ?_) c hc
    have hloop : AgreeUpTo k (skipElements s f nesting) (skipElements s g nesting) :=
      AgreeUpTo.loop (.refl _) (advances_tryReadArrayEnd (E := Any) nesting).forward
        (fun _ => h k hk (.array :: nesting)) (fun _ => (hf _).forward) ()
    exact hloop.bind (advances_skipElements hf nesting).forward fun _ => .refl _
  · refine AgreeUpTo.behind hobject (fun k hk _ => ?_) c hc
    have hmember : AgreeUpTo k (skipMember s f nesting) (skipMember s g nesting) :=
      (AgreeUpTo.refl _).bind (advances_readObjectMemberName _).forward
        fun _ => h k hk (.object :: nesting)
    have hloop : AgreeUpTo k (skipMembers s f nesting) (skipMembers s g nesting) :=
      AgreeUpTo.loop (.refl _) (advances_tryReadObjectEnd (E := Any) nesting).forward
        (fun _ => hmember) (fun _ => (advances_skipMember hf nesting).forward) ()
    exact hloop.bind (advances_skipMembers hf nesting).forward fun _ => .refl _
  · rfl
  · rfl
  · rfl

theorem agree_loop_trySkip (hs : s.Known) (hf : ∀ nesting, Advances Any 0 (f nesting))
    (h : ∀ k < n, ∀ nesting, AgreeUpTo k (f nesting) (g nesting)) (nesting : List State) :
    AgreeUpTo n
      (Parse.loop (trySkip s f nesting) (fun _ => inputAdvance 1) (fun _ => .hangs) ())
      (Parse.loop (trySkip s g nesting) (fun _ => inputAdvance 1) (fun _ => .hangs) ()) := by
  refine AgreeUpTo.loop (agree_trySkip hs hf h nesting) (advances_trySkip hf nesting).forward
    (fun _ => .refl _) (fun _ => ?_) ()
  rintro c ⟨⟩ c' hc
  cases hc
  rw [Cursor.rest_advance, List.length_drop]
  omega

/-- The number of arrays and objects inside of one another does not matter, if it is above the
number of symbols. -/
theorem agree_skipDepth (hs : s.Known) {i j : ℕ} (hi : n < i) (hj : n < j) (nesting : List State) :
    AgreeUpTo n (skipDepth s i nesting) (skipDepth s j nesting) := by
  induction n using Nat.strong_induction_on generalizing i j nesting with
  | _ n ih =>
    obtain ⟨i, rfl⟩ := Nat.exists_eq_add_of_lt hi
    obtain ⟨j, rfl⟩ := Nat.exists_eq_add_of_lt hj
    refine (AgreeUpTo.refl consumeWhitespace).bind
      (advances_consumeWhitespace (E := Any)).forward fun _ => ?_
    exact agree_loop_trySkip hs (advances_skipDepth _)
      (fun k hk nesting => ih k hk (by omega) (by omega) nesting) nesting

/-- **`skip` calls itself.** -/
theorem skip_eq (hs : s.Known) (nesting : List State) : skip s nesting = (do
    consumeWhitespace
    Parse.loop (trySkip s (skip s) nesting) (fun _ => inputAdvance 1) (fun _ => .hangs) ()) := by
  refine StateT.ext fun c => ?_
  have hagree : AgreeUpTo c.rest.length (skipDepth s (c.rest.length + 1) nesting) (do
      consumeWhitespace
      Parse.loop (trySkip s (skip s) nesting) (fun _ => inputAdvance 1) (fun _ => .hangs) ()) := by
    rw [skipDepth]
    refine (AgreeUpTo.refl consumeWhitespace).bind
      (advances_consumeWhitespace (E := Any)).forward fun _ => ?_
    refine agree_loop_trySkip hs (advances_skipDepth _) (fun k hk nesting d hd => ?_) nesting
    rw [run_skip]
    exact agree_skipDepth hs (by omega) (Nat.lt_succ_self _) nesting d le_rfl
  rw [run_skip]
  exact hagree c le_rfl

/-- **Where `skip` passes nothing**, the input or an array or object ends. -/
theorem atEnd_of_skip (hs : s.Known) (hnesting : nesting ≠ [])
    (h : (skip s nesting).run c = .ok ((), c')) (hlength : c.rest.length ≤ c'.rest.length) :
    AtEnd s c.rest := by
  rw [skip_eq hs, ok_bind_iff] at h
  obtain ⟨⟨⟩, c₁, hblank, hloop⟩ := h
  obtain ⟨k, -, c₂, hcomes, hstop⟩ := ok_untilStop hloop
  obtain ⟨i, -, hi, rfl⟩ := (advances_consumeWhitespace (E := Any)).ok hblank
  have hskip : Advances Any 0 (trySkip s (skip s) nesting) := advances_trySkip advances_skip nesting
  obtain ⟨j, -, hj, rfl⟩ := hcomes.moves hskip roundMoves_trySkip
  rw [Cursor.rest_advance, List.length_drop] at hj
  rw [Cursor.advance_advance] at hstop
  have hle := hskip.length_le hstop
  rw [Cursor.rest_advance, List.length_drop] at hle
  obtain rfl : i = 0 := by omega
  obtain rfl : j = 0 := by omega
  rw [Nat.add_zero, Cursor.advance_zero] at hstop
  by_contra hend
  have hordinary : ¬Ordinary s c.rest := by
    intro hordinary
    rw [run_trySkip_of_ordinary hordinary] at hstop
    cases hstop
  have hmoves : Moves Any 1 c ((trySkip s (skip s) nesting).run c) :=
    moves_trySkip advances_skip nesting (.inr ⟨hs, rfl, hnesting, hordinary, hend⟩)
  rw [hstop] at hmoves
  obtain ⟨l, hl, hle, rfl⟩ := hmoves
  rw [Cursor.rest_advance, List.length_drop] at hlength
  omega

/-- **At the end** `skip` stays. -/
theorem skip_of_atEnd (hs : s.Known) (nesting : List State) (h : AtEnd s c.rest) :
    (skip s nesting).run c = .ok ((), c) := by
  have hstop : (trySkip s (skip s) nesting).run c = .ok (true, c) := by
    rw [run_trySkip]
    rcases hs with hs | hs <;> rw [AtEnd, hs] at h <;> rw [hs]
    · rcases h with h | ⟨t, h⟩ | ⟨t, h⟩
      · rw [if_pos h]
        rfl
      · rw [← h]
        rfl
      · rw [← h]
        rfl
    · rcases h with h | ⟨t, h⟩ | ⟨t, h⟩
      · rw [if_pos h]
        rfl
      · rw [← h]
        rfl
      · rw [← h]
        rfl
  have hblank : NonBlank c.rest := by
    rcases h with h | ⟨t, h⟩ | ⟨t, h⟩
    · rw [h]
      exact fun b hb => by cases hb
    all_goals rw [← h]
    · rcases hs with hs | hs <;> rw [hs] <;> exact fun b hb => by cases hb; rfl
    · rcases hs with hs | hs <;> rw [hs] <;> exact fun b hb => by cases hb; rfl
  rw [skip_eq hs, ok_bind_iff]
  exact ⟨(), c, run_consumeWhitespace_of_nonBlank hblank, run_loop_of_stop hstop⟩

end TextReader

namespace TextSerializer

open TextReader
open TextFailure (Thrown Ended)

variable {s : TextSerializer} {nesting : List State} {α : Type} {k n level : ℕ} {resize : Resize}
  {d : TypeDescriptor} {ps : PropertyDescriptors}

/-! ## Values -/

/-- A type whose values are read as floating-point values. -/
def IsFloat (s : TextSerializer) : FundamentalType → Prop
  | .float32 => True
  | .float64 => True
  | .timepoint => s.format.timepointFormat = .fractionalSeconds
  | .steadyTimepoint => True
  | .duration => True
  | _ => False

mutual

/-- No part of a value is read as a floating-point value. -/
def NoFloat (s : TextSerializer) : TypeDescriptor → Prop
  | .fundamental t => ¬s.IsFloat t
  | .enumeration _ _ => True
  | .vector d => NoFloat s d
  | .struct ps => NoFloats s ps

def NoFloats (s : TextSerializer) : PropertyDescriptors → Prop
  | .nil => True
  | .cons _ d ps => NoFloat s d ∧ NoFloats s ps

end

theorem advances_readFloat64 (h : s.converters.Bounded) (nesting : List State) :
    Advances Thrown 1 (readFloat64 s nesting) :=
  advances_finalized (advances_readFloat fun text => (h text).2)

theorem advances_readFloat32 (h : s.converters.Bounded) (nesting : List State) :
    Advances Thrown 1 (readFloat32 s nesting) :=
  advances_finalized ((advances_readFloat fun text => (h text).1).bind_left fun _ =>
    (advances_readSuffix nesting _ _).bind_left fun _ => .pure _)

theorem advances_readString (nesting : List State) :
    Advances Thrown (min 1 nesting.length) (s.readString nesting) := by
  refine (advances_readEscapedString nesting).bind_left fun token => ?_
  exact .dite (fun _ => .pure _) fun _ => .fail fun _ => trivial

theorem advances_quoted (nesting : List State) (convert : List UInt8 → Option α) :
    Advances Thrown (min 1 nesting.length) (do
      converted (convert (← readQuotedString s nesting)) : ReadText α) :=
  (advances_readQuotedString nesting).bind_left fun _ => advances_converted _

/-- **The value of a fundamental type** that is not at the outermost level takes a symbol. -/
theorem advances_readFundamental {t : FundamentalType} (h : s.converters.Bounded ∨ ¬s.IsFloat t)
    (nesting : List State) : Advances Thrown (min 1 nesting.length) (s.readFundamental nesting t) := by
  have hle : min 1 nesting.length ≤ 1 := Nat.min_le_left _ _
  have hfloat : s.IsFloat t → s.converters.Bounded := fun hfloat => h.resolve_right (not_not_intro hfloat)
  cases t with
  | boolean => exact (advances_finalized advances_readBool).of_le hle
  | int8 => exact (advances_readSigned 8 nesting).of_le hle
  | uint8 => exact (advances_readUnsigned 8 nesting).of_le hle
  | int16 => exact (advances_readSigned 16 nesting).of_le hle
  | uint16 => exact (advances_readUnsigned 16 nesting).of_le hle
  | int32 => exact (advances_readSigned 32 nesting).of_le hle
  | uint32 => exact (advances_readUnsigned 32 nesting).of_le hle
  | int64 => exact (advances_readSigned 64 nesting).of_le hle
  | uint64 => exact (advances_readUnsigned 64 nesting).of_le hle
  | float32 => exact (advances_readFloat32 (hfloat trivial) nesting).of_le hle
  | float64 => exact (advances_readFloat64 (hfloat trivial) nesting).of_le hle
  | propertySet => exact (advances_readUnsigned 32 nesting).of_le hle
  | timepoint =>
    rw [readFundamental]
    split
    · rename_i hformat
      exact (advances_readFloat64 (hfloat hformat) nesting).of_le hle
    · exact advances_quoted nesting _
  | steadyTimepoint => exact (advances_readFloat64 (hfloat trivial) nesting).of_le hle
  | duration => exact (advances_readFloat64 (hfloat trivial) nesting).of_le hle
  | uuid => exact advances_quoted nesting _
  | string => exact advances_readString nesting

theorem advances_readQualifier (nesting : List State) (head tail : List UInt8) :
    Advances Thrown 0 (readQualifier s nesting head tail) := by
  have htoken : ∀ token, Advances Thrown 0 (consumeToken token) :=
    fun token => (advances_consumeToken token).of_le (Nat.zero_le _)
  rw [readQualifier]
  split_ifs
  · exact (htoken head).bind_left fun _ => htoken tail
  · exact advances_ite_token head (htoken tail) (.pure ()) (Nat.zero_le _)

/-- The enumerator of a read, or an exception. -/
theorem advances_enumerator (e : Except Exception EnumeratorDescriptor) :
    Advances Thrown 0 (match e with
      | .ok e => return e.value
      | .error e => Parse.fail fun _ => .thrown e : ReadText (BitVec 32)) := by
  cases e with
  | ok e => exact .pure _
  | error e => exact .fail fun _ => trivial

theorem advances_readEnum (nesting : List State) (name : String) (es : List EnumeratorDescriptor) :
    Advances Ended 0 (s.readEnum nesting name es) := by
  have hthrown : ∀ {m : ReadText (BitVec 32)}, Advances Thrown 0 m → Advances Ended 0 m :=
    fun h => h.mono (fun _ => Thrown.ended) le_rfl
  rw [readEnum]
  refine Advances.bind_left ?_ fun e => hthrown (advances_enumerator e)
  split
  · exact ((advances_readUnsigned 32 nesting).mono (fun _ => Thrown.ended) (Nat.zero_le _)).bind_left
      fun _ => .pure _
  · rw [readQualifiedIdentifierString_eq]
    refine Advances.bind_left ?_ fun _ => .pure _
    exact advances_consumeWhitespace.bind_left fun _ =>
      ((advances_readQualifier nesting _ _).mono (fun _ => Thrown.ended) le_rfl).bind_left
        fun _ => advances_readIdentifierString nesting

/-- A type with an enumerator that has no name, which a relaxed reader finds everywhere. -/
def Nameless (s : TextSerializer) : TypeDescriptor → Prop
  | .enumeration _ es =>
    s.format.enumFormat = .identifier ∧ s.options.policy = .relaxed ∧ ∃ e ∈ es, e.name = ""
  | _ => False

theorem ascii_eq_nil {name : String} (h : ascii name = []) : name = "" :=
  String.toList_eq_nil_iff.mp (List.map_eq_nil_iff.mp h)

theorem ok_identifier {c c' : Cursor UInt8} {name : List UInt8}
    (h : identifier.run c = .ok (name, c')) :
    name = c.rest.takeWhile isIdentifierSymbol ∧ c' = c.advance name.length := by
  rw [run_identifier] at h
  split at h
  · cases h
    exact ⟨rfl, rfl⟩
  · split_ifs at h
    cases h
    exact ⟨rfl, rfl⟩

theorem length_identifier {c c' : Cursor UInt8} {name : List UInt8}
    (h : (readIdentifierString s nesting).run c = .ok (name, c')) :
    c'.rest.length + name.length ≤ c.rest.length := by
  obtain ⟨name', c₁, hname, hrest⟩ := ok_bind_iff.mp h
  obtain ⟨⟨⟩, c₂, hfinal, hreturn⟩ := ok_bind_iff.mp hrest
  cases hreturn
  have hle := (advances_finalizeRead (E := Any) nesting).length_le hfinal
  obtain ⟨htaken, rfl⟩ := ok_identifier hname
  have hlength : name.length ≤ c.rest.length := htaken ▸ (List.takeWhile_prefix _).length_le
  rw [Cursor.rest_advance, List.length_drop] at hle
  omega

/-- **An enumerator** that is not at the outermost level takes a symbol, if it has a name. -/
theorem advances_readEnum_of_named {name : String} {es : List EnumeratorDescriptor}
    (hnesting : nesting ≠ []) (h : ¬s.Nameless (.enumeration name es)) :
    Advances Ended 1 (s.readEnum nesting name es) := by
  refine (advances_readEnum nesting name es).of_length fun c value c' hrun => ?_
  rw [readEnum] at hrun
  obtain ⟨e, c₁, he, hvalue⟩ := ok_bind_iff.mp hrun
  have hle := (advances_enumerator e).length_le hvalue
  have hfound : ∃ d, e = .ok d := by
    cases e with
    | ok d => exact ⟨d, rfl⟩
    | error e => cases hvalue
  obtain ⟨d, rfl⟩ := hfound
  cases hformat : s.format.enumFormat with
  | tag =>
    rw [hformat] at he
    have htag := ((advances_readUnsigned 32 nesting).bind_left fun _ => .pure _).length_le he
    omega
  | identifier =>
    rw [hformat, readQualifiedIdentifierString_eq] at he
    obtain ⟨text, c₂, htext, hname⟩ := ok_bind_iff.mp he
    obtain ⟨⟨⟩, c₃, hblank, htext⟩ := ok_bind_iff.mp htext
    obtain ⟨⟨⟩, c₄, hqualifier, htext⟩ := ok_bind_iff.mp htext
    have h₁ := (advances_consumeWhitespace (E := Any)).length_le hblank
    have h₂ := (advances_readQualifier nesting _ _).length_le hqualifier
    have h₃ := length_identifier htext
    obtain ⟨hname, rfl⟩ := Prod.mk.inj (Except.ok.inj hname)
    cases hpolicy : s.options.policy with
    | strict =>
      have htoken := advances_consumeToken (ascii "::")
      rw [readQualifier, if_pos ⟨hnesting, hpolicy⟩] at hqualifier
      have h₄ := (((advances_consumeToken _).of_le (Nat.zero_le _)).bind_right
        fun _ => htoken).length_le hqualifier
      have hlength : (ascii "::").length = 2 := rfl
      omega
    | relaxed =>
      have hne : text ≠ [] := by
        rintro rfl
        rw [enumeratorFromName] at hname
        split at hname
        · rename_i d' hfind
          refine h ⟨hformat, hpolicy, d', List.mem_of_find?_eq_some hfind, ?_⟩
          exact ascii_eq_nil (by simpa using List.find?_some hfind)
        · cases hname
      have hpos := List.length_pos_iff.mpr hne
      omega

/-! ## Vectors and structs -/

theorem advances_readElement {read : Value d → ReadText (Value d)} {E : TextFailure → Prop}
    (hE : E .length) (h : ∀ v, Advances E k (read v))
    (vs : {vs : List (Value d) // vs.length < sizeLimit}) :
    Advances E k (readElement resize read vs) :=
  .dite (fun _ => (h _).bind_left fun _ => .pure _) fun _ => .fail fun _ => hE

theorem advances_readValue {read : Value d → ReadText (Value d)} {E : TextFailure → Prop}
    (h : ∀ v, Advances E 0 (read v)) (v : Option (Value d)) :
    Advances E 0 (readValue s nesting v read) := by
  refine (advances_tryReadNull nesting).bind_left fun isNull => ?_
  cases isNull with
  | true => exact .pure none
  | false => exact (h _).bind_left fun _ => .pure _

theorem advances_readMember {property : List UInt8 → α → Option (ReadText α)}
    (h : ∀ name x, ∀ read ∈ property name x, Advances Any 0 read) (x : α) :
    Advances Any s.format.objectMemberNameBegin.length (readMember s nesting property x) := by
  refine (advances_any (advances_readObjectMemberName _)).bind_left fun name => ?_
  cases hread : property name x with
  | none => exact (advances_skip _).bind_left fun _ => .pure x
  | some read => exact h name x read hread

theorem advances_readMembers {property : List UInt8 → α → Option (ReadText α)}
    (h : ∀ name x, ∀ read ∈ property name x, Advances Any 0 read) (objectTypeName : List UInt8)
    (x : α) : Advances Any s.format.objectBegin.length
      (readMembers s nesting objectTypeName property x) :=
  (advances_any (advances_readObjectBegin objectTypeName)).bind_left fun _ =>
    .loop_of_error (advances_tryReadObjectEnd nesting)
      (fun x _ c₁ _ => (advances_readMember h x).of_le (Nat.zero_le _) c₁) fun _ => trivial

mutual

/-- **A value** that is not at the outermost level takes a symbol, unless it is an enumerator
without a name. -/
theorem advances_readType (hs : s.Known) (resize : Resize) : ∀ (d : TypeDescriptor) (level : ℕ)
    (nesting : List State) (k : ℕ), s.converters.Bounded ∨ s.NoFloat d →
    (k = 0 ∨ k = 1 ∧ nesting ≠ [] ∧ ¬s.Nameless d) → ∀ v : Value d,
      Advances Any k (s.readType resize level nesting d v)
  | .fundamental t, level, nesting, k, hd, hk, v => by
    have hle : k ≤ min 1 nesting.length := by
      rcases hk with rfl | ⟨rfl, hnesting, -⟩
      · exact Nat.zero_le _
      · exact le_min le_rfl (List.length_pos_iff.mpr hnesting)
    rw [readType]
    exact advances_any ((advances_readFundamental hd nesting).of_le hle)
  | .enumeration name es, level, nesting, k, hd, hk, v => by
    rw [readType]
    rcases hk with rfl | ⟨rfl, hnesting, hnamed⟩
    · exact advances_any (advances_readEnum nesting name es)
    · exact advances_any (advances_readEnum_of_named hnesting hnamed)
  | .vector d, level, nesting, k, hd, hk, vs => by
    have hle : k ≤ s.format.arrayBegin.length := by
      rw [length_token hs _ (by simp)]
      omega
    rw [readType]
    refine (advances_any (advances_readArrayBegin.of_le hle)).bind_left fun _ => ?_
    refine .loop_of_error (advances_tryReadArrayEnd nesting) (fun vs _ c₁ _ => ?_) fun _ => trivial
    exact advances_readElement trivial
      (advances_readType hs resize d (level + 1) (.array :: nesting) 0 hd (.inl rfl)) vs c₁
  | .struct ps, level, nesting, k, hd, hk, x => by
    have hle : k ≤ s.format.objectBegin.length := by
      rw [length_token hs _ (by simp)]
      omega
    rw [readType]
    refine (advances_readMembers (fun name x read hread => ?_) _ x).of_le hle
    exact advances_readProperty hs resize ps _ _ _ _ hd x read hread

theorem advances_readProperty (hs : s.Known) (resize : Resize) : ∀ (ps : PropertyDescriptors)
    (level : ℕ) (nesting : List State) (included : PropertySet) (name : List UInt8),
    s.converters.Bounded ∨ s.NoFloats ps → ∀ (x : Instance ps),
      ∀ read ∈ s.readProperty resize level nesting included name ps x, Advances Any 0 read
  | .nil, level, nesting, included, name, hps, x, read, hread => by
    rw [readProperty] at hread
    cases hread
  | .cons p d ps, level, nesting, included, name, hps, (v, x), read, hread => by
    rw [readProperty] at hread
    split_ifs at hread
    · obtain rfl := Option.some.inj hread
      refine (advances_readValue (fun v => ?_) v).bind_left fun _ => .pure _
      exact advances_readType hs resize d level nesting 0 (hps.imp_right And.left) (.inl rfl) v
    · cases hread
    · obtain ⟨read, hmem, rfl⟩ := Option.map_eq_some_iff.mp hread
      exact (advances_readProperty hs resize ps level nesting included name (hps.imp_right And.right)
        x read hmem).bind_left fun _ => .pure _

end

end TextSerializer

end Dots
