import Dots.Text.Layout
import Dots.Text.RoundTrip

/-!
# Reading the parts of a text

What a reader with its own options makes of the parts of a text of the same format. It may expect
what was not written, or take the beginning of a name for the name of an enum; then it throws.

* `Ends`, `Separates`: what is behind a value, and what is taken with it.
* `LegibleSuffix`, `LegibleFundamental`, `LegibleEnumerator`: the texts that are read.
* **`behaves_readInteger`**, **`behaves_readFundamental`**, **`behaves_readEnum`**: the values.
* `readsBefore_memberName`: the name of a member.
-/

set_option autoImplicit false

namespace Dots

open Parse TextReader TextWriter Json

variable {s : TextSerializer} {options : TextOptions} {state : State} {nesting : List State}
  {w text trail rest : List UInt8} {P : List UInt8 → Prop} {α : Type}

/-! ## What is behind a value -/

/-- The whitespace that is written. -/
def Spaces (w : List UInt8) : Prop := ∀ b ∈ w, b = 0x20 ∨ b = 0x0A

theorem Spaces.blank (h : Spaces w) : Blank w := by
  intro b hb
  rcases h b hb with rfl | rfl <;> rfl

theorem spaces_nil : Spaces [] := nofun

theorem spaces_newLine (options : TextOptions) (level : ℕ) : Spaces (newLine options level) := by
  intro b hb
  rw [newLine] at hb
  split at hb
  · rcases List.mem_cons.mp hb with rfl | hb
    · exact .inr rfl
    · exact .inl (List.eq_of_mem_replicate hb)
  · exact .inl (List.mem_singleton.mp hb)
  · cases hb

/-- A value ends here. -/
def Ends (rest : List UInt8) : Prop := ∀ b ∈ rest.head?, b ∈ ascii " \n,]\x7d"

theorem ends_cons {b : UInt8} (hb : b ∈ ascii " \n,]\x7d") : Ends (b :: rest) := by
  rintro c hc
  cases hc
  exact hb

theorem Ends.cases (h : Ends rest) :
    rest = [] ∨ ∃ b t, rest = b :: t ∧ (b = 0x20 ∨ b = 0x0A ∨ b = 0x2C ∨ b = 0x5D ∨ b = 0x7D) := by
  cases rest with
  | nil => exact .inl rfl
  | cons b t =>
    refine .inr ⟨b, t, rfl, ?_⟩
    have hb := h b rfl
    simpa [ascii] using hb

theorem Ends.delimited (h : Ends rest) : Delimited rest := by
  rintro b hb
  obtain rfl | ⟨c, t, rfl, hc⟩ := h.cases
  · cases hb
  · cases hb
    rcases hc with rfl | rfl | rfl | rfl | rfl <;> decide

theorem Ends.identifierEnd (h : Ends rest) : IdentifierEnd rest := by
  rintro b hb
  obtain rfl | ⟨c, t, rfl, hc⟩ := h.cases
  · cases hb
  · cases hb
    rcases hc with rfl | rfl | rfl | rfl | rfl <;> decide

theorem Ends.numberEnd (h : Ends rest) : NumberEnd rest := h.delimited.numberEnd

/-- A symbol that ends no value does not follow. -/
theorem Ends.not_isPrefix {b : UInt8} (h : Ends rest) (hb : b ∉ ascii " \n,]\x7d") (str : List UInt8) :
    ¬(b :: str) <+: rest := by
  rintro ⟨t, rfl⟩
  exact hb (h b rfl)

/-- One of the two formats. -/
def TextSerializer.Known (s : TextSerializer) : Prop := s.format = JsonFormat ∨ s.format = StringFormat

theorem TextSerializer.Known.commas (hs : s.Known) : s.format.Commas := by
  rcases hs with hs | hs
  · exact hs ▸ commas_json
  · exact hs ▸ commas_string

/-- The end of an array or object. -/
def Closing (s : TextSerializer) (b : UInt8) : Prop :=
  s.format.arrayEnd = [b] ∨ s.format.objectEnd = [b]

theorem Closing.mem (hs : s.Known) {b : UInt8} (hb : Closing s b) : b = 0x5D ∨ b = 0x7D := by
  rcases hs with hs | hs
  · rw [Closing, hs] at hb
    exact hb.imp (fun h => (List.cons.inj h).1.symm) fun h => (List.cons.inj h).1.symm
  · rw [Closing, hs] at hb
    exact .inr (hb.elim (fun h => (List.cons.inj h).1.symm) fun h => (List.cons.inj h).1.symm)

/-- What is taken behind an element or member: a separator, or the whitespace before the end. -/
inductive Separates (s : TextSerializer) : List UInt8 → (List UInt8 → Prop) → Prop
  | comma : Separates s (ascii ",") fun _ => True
  | blank {w : List UInt8} {b : UInt8} (hw : Spaces w) (hb : Closing s b) :
      Separates s w fun rest => ∃ t, rest = b :: t

theorem Separates.ends (hs : s.Known) (h : Separates s trail P) (hrest : P rest) :
    Ends (trail ++ rest) := by
  cases h with
  | comma => exact ends_cons (by decide)
  | @blank _ b hw hb =>
    obtain ⟨t, rfl⟩ := hrest
    cases trail with
    | nil =>
      refine ends_cons ?_
      rcases hb.mem hs with rfl | rfl <;> decide
    | cons c w =>
      refine ends_cons ?_
      rcases hw c List.mem_cons_self with rfl | rfl <;> decide

theorem Separates.closes (hs : s.Known) (h : Separates s trail P) (options : TextOptions)
    (converters : Converters) (state : State) (nesting : List State) :
    Closes options converters (state :: nesting) trail P := by
  cases h with
  | comma => exact closes_separator state
  | blank hw hb =>
    refine closes_blank state hw.blank ?_
    rcases hb.mem hs with rfl | rfl <;> decide

namespace TextSerializer

theorem finalizeRead_eq (hs : s.format.Commas) (nesting : List State) :
    finalizeRead s nesting = finalizeRead (JsonSerializer s.options s.converters) nesting := by
  cases nesting with
  | nil => rfl
  | cons state nesting =>
    rw [finalizeRead_cons]
    cases state with
    | array => rw [finalizeRead, hs.element]
    | object => rw [finalizeRead, hs.member]

theorem readsBefore_finalizeRead (hs : s.Known) (h : Separates s trail P) (state : State)
    (nesting : List State) : ReadsBefore P (finalizeRead s (state :: nesting)) trail () := by
  rw [finalizeRead_eq hs.commas]
  exact (h.closes hs s.options s.converters state nesting).reads

/-- A value and what is taken behind it. -/
theorem behaves_finalized (hs : s.Known) (h : Separates s trail P) {read : ReadText α}
    {r : Option α} (hread : Behaves Ends read text r) :
    Behaves P (finalized s (state :: nesting) read) (text ++ trail) r := by
  have hfinalized := hread.bind_reads (Q := P) (u := trail) (g := id) (fun rest hrest => h.ends hs hrest)
    fun a _ => (readsBefore_finalizeRead hs h state nesting).bind_pure (g := fun _ => a)
  rwa [Option.map_id_fun] at hfinalized

/-! ## Numbers -/

/-- The same format and type names, with other options. -/
def styled (s : TextSerializer) (options : TextOptions) : TextSerializer := { s with options }

/-- A strict reader asks for a suffix, which is not written in the minified style. -/
def LegibleSuffix (s : TextSerializer) (options : TextOptions) (hasSuffix : Bool) : Prop :=
  hasSuffix = true → s.options.policy = .strict → options.style ≠ .minified

instance (hasSuffix : Bool) : Decidable (LegibleSuffix s options hasSuffix) :=
  inferInstanceAs (Decidable (_ → _ → _))

theorem behaves_readSuffix (s : TextSerializer) (options : TextOptions) (state : State)
    (nesting : List State) {b : UInt8} (hb : b ∉ ascii " \n,]\x7d") (hasSuffix : Bool) :
    Behaves Ends (readSuffix s (state :: nesting) hasSuffix [b])
      ((s.styled options).suffixText hasSuffix [b])
      (if s.LegibleSuffix options hasSuffix then some () else none) := by
  cases hasSuffix with
  | false =>
    have htext : (s.styled options).suffixText false [b] = [] := if_neg (by simp)
    have hlegible : s.LegibleSuffix options false := nofun
    rw [htext, if_pos hlegible]
    exact (ReadsBefore.pure ()).behaves
  | true =>
    have hread : readSuffix s (state :: nesting) true [b] =
        if s.options.policy = .strict then consumeToken [b]
        else (do let _ ← tryConsumeToken [b]) := by
      rw [readSuffix, if_pos rfl]
      simp only [ne_eq, reduceCtorEq, not_false_eq_true, true_and]
    rw [hread]
    by_cases hstyle : options.style = .minified
    · have htext : (s.styled options).suffixText true [b] = [] := if_neg fun h => h.2 hstyle
      have hnone : ReadsBefore Ends (tryConsumeToken [b]) [] false :=
        (readsBefore_no_token [b]).mono fun rest hrest => hrest.not_isPrefix hb []
      rw [htext]
      by_cases hpolicy : s.options.policy = .strict
      · rw [if_pos hpolicy, if_neg fun h : s.LegibleSuffix options true => h rfl hpolicy hstyle]
        exact hnone.then_nil (fun _ h => h) behaves_fail
      · have hlegible : s.LegibleSuffix options true := fun _ h => absurd h hpolicy
        rw [if_neg hpolicy, if_pos hlegible]
        exact hnone.bind_pure.behaves
    · have htext : (s.styled options).suffixText true [b] = [b] := if_pos ⟨rfl, hstyle⟩
      have hlegible : s.LegibleSuffix options true := fun _ _ => hstyle
      rw [htext, if_pos hlegible]
      split_ifs
      · exact (reads_consumeToken [b]).before.behaves
      · exact ((reads_token [b]).before.bind_pure (g := fun _ => ())).behaves

/-- The prefix of an integer that tells its base. -/
def radix (base : ℕ) : List UInt8 :=
  if base = 2 then ascii "0b" else if base = 16 then ascii "0x" else []

theorem readsBefore_radix {base : ℕ} (hbase : base = 10 ∨ base = 2) {digits : List UInt8}
    (hdigits : base = 10 → NumberText digits) :
    ReadsBefore (fun rest => ∃ rest', rest = digits ++ rest' ∧ NumberEnd rest') (do
      if ← tryConsumeToken (ascii "0b") then return 2
      else if ← tryConsumeToken (ascii "0x") then return 16
      else return 10 : ReadText ℕ) (radix base) base := by
  rcases hbase with rfl | rfl
  · have hradix (rest : List UInt8) (h : ∃ rest', rest = digits ++ rest' ∧ NumberEnd rest') :
        ¬ascii "0b" <+: rest ∧ ¬ascii "0x" <+: rest := by
      obtain ⟨rest', rfl, hrest⟩ := h
      exact (hdigits rfl).not_radix hrest
    refine ReadsBefore.bind_nil (readsBefore_no_token (ascii "0b"))
      (fun rest h => (hradix rest h).1) ?_
    exact ReadsBefore.bind_nil (readsBefore_no_token (ascii "0x")) (fun rest h => (hradix rest h).2)
      (.pure 10)
  · exact ReadsBefore.bind_nil_right (reads_token (ascii "0b")).before (.pure 2)

/-- **An integer** is read from its digits with a prefix and a suffix. -/
theorem behaves_readInteger {bits base : ℕ} {v : BitVec bits} {isUnsigned : Bool}
    {fromChars : ℕ → List UInt8 → Option (BitVec bits × ℕ)} {value : ℤ}
    (hbase : base = 10 ∨ base = 2) (hdigits : base = 10 → NumberText (toChars base value))
    (h : ∀ rest, NumberEnd rest → fromChars base (toChars base value ++ rest) =
      some (v, (toChars base value).length)) :
    Behaves Ends (readInteger s (state :: nesting) isUnsigned fromChars)
      ((s.styled options).integerText base isUnsigned value)
      (if s.LegibleSuffix options (s.format.integerFormat = .withSignSuffix ∧ isUnsigned)
        then some v else none) := by
  have hsuffix := behaves_readSuffix s options state nesting (b := 0x75) (by decide)
    (s.format.integerFormat = .withSignSuffix ∧ isUnsigned)
  have hnumber (rest : List UInt8) (hrest : Ends rest) : NumberEnd
      ((s.styled options).suffixText (s.format.integerFormat = .withSignSuffix ∧ isUnsigned)
        (ascii "u") ++ rest) := by
    rw [suffixText]
    split_ifs
    · rintro b hb
      cases hb
      decide
    · exact hrest.numberEnd
  have hblank (rest : List UInt8) (hrest : Ends rest) :
      NonBlank ((s.styled options).integerText base isUnsigned value ++ rest) := by
    rw [integerText]
    rcases hbase with rfl | rfl
    · rw [if_neg (by omega), if_neg (by omega), List.nil_append, List.append_assoc]
      exact (hdigits rfl).starts.nonBlank _
    · rintro b hb
      cases hb
      rfl
  have htext : (s.styled options).integerText base isUnsigned value = radix base ++ (toChars base value ++
      (s.styled options).suffixText (s.format.integerFormat = .withSignSuffix ∧ isUnsigned)
        (ascii "u")) := List.append_assoc ..
  refine ReadsBefore.then_nil (readsBefore_whitespace blank_nil) hblank ?_
  rw [htext]
  refine (readsBefore_radix hbase hdigits).then (fun rest hrest => ⟨_, List.append_assoc _ _ rest,
    hnumber rest hrest⟩) ?_
  intro o rest hrest
  have hread := h _ (hnumber rest hrest)
  rw [List.append_assoc]
  rw [run_input_bind]
  dsimp only
  rw [hread]
  have hthen : Behaves Ends (do
      inputAdvance (toChars base value).length
      readSuffix s (state :: nesting) (s.format.integerFormat = .withSignSuffix ∧ isUnsigned) (ascii "u")
      return v) (toChars base value ++ (s.styled options).suffixText
        (s.format.integerFormat = .withSignSuffix ∧ isUnsigned) (ascii "u"))
      (if s.LegibleSuffix options (s.format.integerFormat = .withSignSuffix ∧ isUnsigned)
        then some v else none) := by
    have hadvance : ReadsBefore (fun _ => True) (inputAdvance (toChars base value).length)
        (toChars base value) () := fun o rest _ => by
      show Except.ok ((), _) = _
      rw [Cursor.advance, List.drop_left]
    refine hadvance.then (fun _ _ => trivial) ?_
    have hpure := hsuffix.bind_pure (g := fun _ => v)
    rwa [apply_ite (Option.map _)] at hpure
  have hrun := hthen o rest hrest
  rw [List.append_assoc] at hrun
  exact hrun

/-! ## Fundamental values -/

end TextSerializer

/-- Where the number ends, the conversion of its text ends. -/
def ParsedBy {bits : ℕ} (parse : List UInt8 → BitVec bits × ℕ) (text : List UInt8) : Prop :=
  NumberText text ∧ ∀ rest, NumberEnd rest → parse (text ++ rest) = ((parse text).1, text.length)

def FundamentalType.isUnsigned : FundamentalType → Bool
  | .uint8 | .uint16 | .uint32 | .uint64 | .propertySet => true
  | _ => false

/-- A text between quotation marks in which nothing is escaped. -/
def Quotable (text : List UInt8) : Prop := 0x22 ∉ text ∧ 0x5C ∉ text

/-- The texts of floating-point values are numbers, and nothing is escaped in those of times and
uuids. -/
def FundamentalType.Written (s : TextSerializer) : (t : FundamentalType) → t.Value → Prop
  | .float32, v => ParsedBy s.converters.strtof (float32Text s.converters v)
  | .float64, v | .steadyTimepoint, v | .duration, v =>
    ParsedBy s.converters.strtod (float64Text s.converters v)
  | .timepoint, v =>
    match s.format.timepointFormat with
    | .fractionalSeconds => ParsedBy s.converters.strtod (float64Text s.converters v)
    | .iso8601String => Quotable (s.converters.timepointText v)
  | .uuid, v => Quotable (s.converters.uuidText v)
  | _, _ => True

namespace TextSerializer

/-- What the conversions make of the text of a value. -/
def readBack (s : TextSerializer) : (t : FundamentalType) → t.Value → Option t.Value
  | .float32, v => some (s.converters.strtof (float32Text s.converters v)).1
  | .float64, v | .steadyTimepoint, v | .duration, v =>
    some (s.converters.strtod (float64Text s.converters v)).1
  | .timepoint, v =>
    match s.format.timepointFormat with
    | .fractionalSeconds => some (s.converters.strtod (float64Text s.converters v)).1
    | .iso8601String => s.converters.timepointFromString (s.converters.timepointText v)
  | .uuid, v => s.converters.uuidFromString (s.converters.uuidText v)
  | .boolean, v | .int8, v | .uint8, v | .int16, v | .uint16, v | .int32, v | .uint32, v | .int64, v
  | .uint64, v | .propertySet, v | .string, v => some v

def LegibleFundamental (s : TextSerializer) (options : TextOptions) (t : FundamentalType) : Prop :=
  s.LegibleSuffix options (s.format.integerFormat = .withSignSuffix ∧ t.isUnsigned) ∧
    s.LegibleSuffix options (s.format.floatFormat = .withSizeSuffix ∧ t = .float32)

instance (t : FundamentalType) : Decidable (s.LegibleFundamental options t) :=
  inferInstanceAs (Decidable (_ ∧ _))

theorem legibleSuffix_of_not {p : Prop} [Decidable p] (h : ¬p) : s.LegibleSuffix options p :=
  fun hp => absurd (of_decide_eq_true hp) h

theorem legibleFundamental_iff {t : FundamentalType} (h : t ≠ .float32) :
    s.LegibleFundamental options t ↔
      s.LegibleSuffix options (s.format.integerFormat = .withSignSuffix ∧ t.isUnsigned) :=
  and_iff_left (legibleSuffix_of_not fun hp => h hp.2)

/-- What has no suffix is legible. -/
theorem legibleFundamental_of {t : FundamentalType} (h : t ≠ .float32) (hsigned : t.isUnsigned = false) :
    s.LegibleFundamental options t :=
  (legibleFundamental_iff h).mpr (legibleSuffix_of_not fun hp => by simp [hsigned] at hp)

theorem legibleFundamental_float32 : s.LegibleFundamental options .float32 ↔
    s.LegibleSuffix options (s.format.floatFormat = .withSizeSuffix) := by
  have hfirst : s.LegibleSuffix options
      (s.format.integerFormat = .withSignSuffix ∧ FundamentalType.float32.isUnsigned) :=
    legibleSuffix_of_not fun hp => Bool.noConfusion hp.2
  rw [LegibleFundamental, and_iff_right hfirst]
  simp only [and_true]

theorem behaves_converted (value : Option α) :
    Behaves P (converted value) [] value := by
  cases value with
  | none => exact behaves_fail
  | some v => exact (ReadsBefore.pure v).behaves

theorem behaves_readUnsigned (hs : s.Known) (h : Separates s trail P) {base : ℕ} (bits : ℕ)
    (hbase : base = 10 ∨ base = 2) (hbits : bits ≤ 64) (v : BitVec bits) :
    Behaves P (readUnsigned s bits (state :: nesting))
      ((s.styled options).integerText base true v.toNat ++ trail)
      (if s.LegibleSuffix options (s.format.integerFormat = .withSignSuffix ∧ true)
        then some v else none) := by
  refine behaves_finalized hs h (behaves_readInteger hbase (fun h => ?_) fun rest hrest => ?_)
  · rw [h]
    exact numberText_toChars _
  · exact fromCharsUnsigned_toChars (by omega) (by omega) hbits v hrest

theorem behaves_readSigned (hs : s.Known) (h : Separates s trail P) (bits : ℕ)
    (hpos : 0 < bits) (hbits : bits ≤ 64) (v : BitVec bits) :
    Behaves P (readSigned s bits (state :: nesting))
      ((s.styled options).integerText 10 false v.toInt ++ trail) (some v) := by
  have hread : Behaves Ends (readInteger s (state :: nesting) false (fromCharsSigned bits))
      ((s.styled options).integerText 10 false v.toInt)
      (if s.LegibleSuffix options (s.format.integerFormat = .withSignSuffix ∧ false)
        then some v else none) :=
    behaves_readInteger (.inl rfl) (fun _ => numberText_toChars _) fun rest hrest =>
      fromCharsSigned_toChars hpos hbits v hrest
  have hlegible : s.LegibleSuffix options (s.format.integerFormat = .withSignSuffix ∧ false) :=
    legibleSuffix_of_not fun hp => Bool.noConfusion hp.2
  rw [if_pos hlegible] at hread
  exact behaves_finalized hs h hread

theorem readsBefore_readFloat {bits : ℕ} {parse : List UInt8 → BitVec bits × ℕ}
    (h : ParsedBy parse text) : ReadsBefore NumberEnd (readFloat parse) text (parse text).1 := by
  intro o rest hrest
  show StateT.run (if (parse (text ++ rest)).2 = 0 then _ else _) _ = _
  rw [h.2 rest hrest, if_neg fun hlength => h.1.1 (List.length_eq_zero_iff.mp hlength)]
  show Except.ok ((parse text).1, _) = _
  rw [Cursor.advance, List.drop_left]

/-- **A fundamental value** is read from its text. -/
theorem behaves_readFundamental (hs : s.Known) (h : Separates s trail P) (t : FundamentalType)
    (v : t.Value) (hv : t.Written s v) :
    Behaves P (s.readFundamental (state :: nesting) t)
      ((s.styled options).fundamentalText t v ++ trail)
      (if s.LegibleFundamental options t then s.readBack t v else none) := by
  have hfloat64 (v : BitVec 64) (hv : ParsedBy s.converters.strtod (float64Text s.converters v)) :
      Behaves P (readFloat64 s (state :: nesting)) (float64Text s.converters v ++ trail)
        (some (s.converters.strtod (float64Text s.converters v)).1) :=
    behaves_finalized hs h ((readsBefore_readFloat hv).mono fun _ h => h.numberEnd).behaves
  have hquoted {text : List UInt8} (htext : 0x22 ∉ text) :
      ReadsBefore P (readQuotedString s (state :: nesting)) (quoted text ++ trail) text := by
    rw [readQuotedString, if_neg (List.cons_ne_nil _ _), quoted_eq]
    exact behaves_some_iff.mp (behaves_finalized hs h (reads_quoted htext).before.behaves)
  have hconverted {text : List UInt8} (htext : 0x22 ∉ text) {β : Type} (f : List UInt8 → Option β) :
      Behaves P (do converted (f (← readQuotedString s (state :: nesting)))) (quoted text ++ trail)
        (f text) := by
    have hread := (hquoted htext).then (f := fun text => converted (f text)) (u := []) (Q := P)
      (fun _ h => h) (behaves_converted (f text))
    rwa [List.append_nil] at hread
  cases t with
  | boolean =>
    rw [if_pos (legibleFundamental_of (by decide) rfl)]
    exact behaves_finalized hs h (reads_bool v).before.behaves
  | int8 =>
    rw [if_pos (legibleFundamental_of (by decide) rfl)]
    exact behaves_readSigned hs h 8 (by omega) (by omega) v
  | int16 =>
    rw [if_pos (legibleFundamental_of (by decide) rfl)]
    exact behaves_readSigned hs h 16 (by omega) (by omega) v
  | int32 =>
    rw [if_pos (legibleFundamental_of (by decide) rfl)]
    exact behaves_readSigned hs h 32 (by omega) (by omega) v
  | int64 =>
    rw [if_pos (legibleFundamental_of (by decide) rfl)]
    exact behaves_readSigned hs h 64 (by omega) (by omega) v
  | uint8 =>
    simp only [legibleFundamental_iff (show FundamentalType.uint8 ≠ .float32 by decide)]
    exact behaves_readUnsigned hs h 8 (.inl rfl) (by omega) v
  | uint16 =>
    simp only [legibleFundamental_iff (show FundamentalType.uint16 ≠ .float32 by decide)]
    exact behaves_readUnsigned hs h 16 (.inl rfl) (by omega) v
  | uint32 =>
    simp only [legibleFundamental_iff (show FundamentalType.uint32 ≠ .float32 by decide)]
    exact behaves_readUnsigned hs h 32 (.inl rfl) (by omega) v
  | uint64 =>
    simp only [legibleFundamental_iff (show FundamentalType.uint64 ≠ .float32 by decide)]
    exact behaves_readUnsigned hs h 64 (.inl rfl) (by omega) v
  | propertySet =>
    simp only [legibleFundamental_iff (show FundamentalType.propertySet ≠ .float32 by decide)]
    refine behaves_readUnsigned hs h 32 ?_ (by omega) v
    split <;> simp
  | float32 =>
    simp only [legibleFundamental_float32]
    have hsuffix := behaves_readSuffix s options state nesting (b := 0x66) (by decide)
      (s.format.floatFormat = .withSizeSuffix)
    have hread := (readsBefore_readFloat hv).then (Q := Ends) (f := fun value => do
        readSuffix s (state :: nesting) (s.format.floatFormat = .withSizeSuffix) (ascii "f")
        return value) (fun rest hrest => ?_) hsuffix.bind_pure
    · rw [apply_ite (Option.map _)] at hread
      exact behaves_finalized hs h hread
    · rw [suffixText]
      split_ifs
      · rintro b hb
        cases hb
        decide
      · exact hrest.numberEnd
  | float64 | steadyTimepoint | duration =>
    rw [if_pos (legibleFundamental_of (by decide) rfl)]
    exact hfloat64 v hv
  | timepoint =>
    rw [if_pos (legibleFundamental_of (by decide) rfl)]
    have hstyled : (s.styled options).format = s.format := rfl
    cases hformat : s.format.timepointFormat with
    | fractionalSeconds =>
      simp only [FundamentalType.Written, hformat] at hv
      simp only [readFundamental, fundamentalText, readBack, hstyled, hformat]
      exact hfloat64 v hv
    | iso8601String =>
      simp only [FundamentalType.Written, hformat] at hv
      simp only [readFundamental, fundamentalText, readBack, hstyled, hformat]
      exact hconverted hv.1 _
  | uuid =>
    rw [if_pos (legibleFundamental_of (by decide) rfl)]
    exact hconverted hv.1 _
  | string =>
    rw [if_pos (legibleFundamental_of (by decide) rfl)]
    have hread : ReadsBefore P (readEscapedString s (state :: nesting))
        (quoted (escape v.1) ++ trail) v.1 := by
      rw [readEscapedString, if_neg (List.cons_ne_nil _ _), quoted_eq]
      exact behaves_some_iff.mp (behaves_finalized hs h (reads_escaped v.1).before.behaves)
    have hlength : (if h : v.1.length < sizeLimit then pure ⟨v.1, h⟩
        else Parse.fail fun _ => .length : ReadText {bytes : List UInt8 // bytes.length < sizeLimit}) =
          pure v := dif_pos v.2
    refine (hread.bind_nil_right ?_).behaves
    exact fun o rest _ => congrArg (fun m => StateT.run m (⟨o, rest⟩ : Cursor UInt8)) hlength

/-! ## Names -/

theorem not_isWhitespace_of_identifier {b : UInt8} (h : isIdentifierSymbol b = true) :
    isWhitespace b = false := by
  rw [isIdentifierSymbol, decide_eq_true_eq] at h
  simp only [isWhitespace, UInt8.lt_iff_toNat_lt, UInt8.le_iff_toNat_le, ← UInt8.toNat_inj,
    decide_eq_false_iff_not] at h ⊢
  simp only [UInt8.reduceToNat] at h ⊢
  omega

theorem nonBlank_identifier {name : String} (h : IsIdentifier name) (hrest : NonBlank rest) :
    NonBlank (ascii name ++ rest) := by
  intro b hb
  cases hname : ascii name with
  | nil =>
    rw [hname] at hb
    exact hrest b hb
  | cons c t =>
    rw [hname] at hb
    cases hb
    exact not_isWhitespace_of_identifier (isIdentifierSymbol_of_mem h (by rw [hname]; simp))

theorem ascii_ne_nil {name : String} (h : name ≠ "") : ascii name ≠ [] := fun hnil =>
  h (String.toList_eq_nil_iff.mp (List.map_eq_nil_iff.mp hnil))

/-- A name that is not empty begins with a symbol of names. -/
theorem exists_identifier {name : String} (h : IsIdentifier name) (hne : name ≠ "") :
    ∃ b t, ascii name = b :: t ∧ isIdentifierSymbol b = true := by
  obtain ⟨b, t, hname⟩ := List.exists_cons_of_ne_nil (ascii_ne_nil hne)
  exact ⟨b, t, hname, isIdentifierSymbol_of_mem h (by rw [hname]; simp)⟩

/-- An identifier is a prefix of another one, or of none with what ends it. -/
theorem isPrefix_identifier {name name' : String} (h : IsIdentifier name) (hrest : Ends rest) :
    ascii name <+: ascii name' ++ rest ↔ ascii name <+: ascii name' := by
  refine ⟨fun hprefix => ?_, fun hprefix => hprefix.trans (List.prefix_append _ _)⟩
  rcases List.prefix_or_prefix_of_prefix hprefix (List.prefix_append _ _) with hshort | hlong
  · exact hshort
  · obtain ⟨u, hu⟩ := hlong
    cases u with
    | nil =>
      rw [List.append_nil] at hu
      rw [hu]
    | cons c u =>
      rw [← hu, List.prefix_append_right_inj] at hprefix
      obtain ⟨t, rfl⟩ := hprefix
      have hsymbol : isIdentifierSymbol c = true :=
        isIdentifierSymbol_of_mem h (by rw [← hu]; simp)
      rw [(hrest.identifierEnd c rfl).1] at hsymbol
      cases hsymbol

/-- The part of a qualified name that comes first. -/
def readQualifier (s : TextSerializer) (nesting : List State) (head tail : List UInt8) :
    ReadText Unit := do
  if nesting ≠ [] ∧ s.options.policy = .strict then
    consumeToken head
    consumeToken tail
  else if ← tryConsumeToken head then
    consumeToken tail

theorem reads_readQualifier (head tail : List UInt8) :
    Reads (readQualifier s nesting head tail) (head ++ tail) () := by
  rw [readQualifier]
  split_ifs
  · exact (reads_consumeToken head).bind (reads_consumeToken tail)
  · exact (reads_token head).bind (reads_consumeToken tail)

theorem behaves_no_token (token : List UInt8) :
    Behaves (fun rest => ¬token <+: rest) (consumeToken token) [] none :=
  (readsBefore_no_token token).then_nil (fun _ h => h) behaves_fail

/-- A part of a name is not followed by colons. -/
theorem not_isPrefix_colons {name : String} (h : IsIdentifier name) {init : List UInt8}
    (hname : init ++ w = ascii name) (hrest : Ends rest) : ¬ascii "::" <+: w ++ rest := by
  rintro ⟨t, ht⟩
  cases w with
  | nil => exact hrest.not_isPrefix (by decide) [0x3A] ⟨t, ht⟩
  | cons b w =>
    obtain rfl : (0x3A : UInt8) = b := (List.cons.inj ht).1
    have hsymbol := isIdentifierSymbol_of_mem h (b := 0x3A) (by rw [← hname]; simp)
    exact absurd hsymbol (by decide)

/-- Without its qualifier, a strict reader does not accept a name, and a relaxed one only if it does
not begin like one with the qualifier. -/
theorem behaves_readQualifier (state : State) (nesting : List State) {head name : String}
    (hhead : IsIdentifier head) (hname : IsIdentifier name) :
    Behaves (fun rest => ∃ rest', rest = ascii name ++ rest' ∧ Ends rest')
      (readQualifier s (state :: nesting) (ascii head) (ascii "::")) []
      (if s.options.policy = .relaxed ∧ ¬ascii head <+: ascii name then some () else none) := by
  rintro o _ ⟨rest, rfl, hrest⟩
  rw [List.nil_append]
  by_cases hstarts : ascii head <+: ascii name
  · -- the colons do not follow
    obtain ⟨u, hu⟩ := hstarts
    have hcolons : Behaves Ends (consumeToken (ascii "::")) u none :=
      (behaves_no_token _).none_append fun rest hrest => not_isPrefix_colons hname hu hrest
    have hread : Behaves Ends (readQualifier s (state :: nesting) (ascii head) (ascii "::"))
        (ascii head ++ u) none := by
      rw [readQualifier]
      split_ifs
      · exact (reads_consumeToken _).before.then (P := fun _ => True) (fun _ _ => trivial) hcolons
      · exact (reads_token _).before.then (P := fun _ => True) (fun _ _ => trivial) hcolons
    have hrun := hread o rest hrest
    rw [hu] at hrun
    rw [hrun, if_neg fun h => h.2 ⟨u, hu⟩]
    rfl
  · have hno : ¬ascii head <+: ascii name ++ rest := fun h =>
      hstarts ((isPrefix_identifier hhead hrest).mp h)
    have hread : Behaves (fun rest => ¬ascii head <+: rest)
        (readQualifier s (state :: nesting) (ascii head) (ascii "::")) []
        (if s.options.policy = .relaxed then some () else none) := by
      rw [readQualifier]
      cases hpolicy : s.options.policy with
      | relaxed =>
        rw [if_neg (by simp), if_pos rfl]
        exact (ReadsBefore.bind_nil_right (readsBefore_no_token (ascii head)) (.pure ())).behaves
      | strict =>
        rw [if_pos (by simp), if_neg (by simp)]
        have hnone := (behaves_no_token (ascii head)).bind (u := []) (Q := fun rest => ¬ascii head <+: rest)
          (f := fun _ => consumeToken (ascii "::")) (g := fun _ => none) (fun _ h => h)
          fun _ ha => by cases ha
        exact hnone
    have hrun := hread o (ascii name ++ rest) hno
    rw [List.nil_append] at hrun
    rw [hrun]
    simp only [hstarts, not_false_eq_true, and_true]

theorem readQualifiedIdentifierString_eq (head tail : List UInt8) :
    readQualifiedIdentifierString s nesting head tail = (do
      consumeWhitespace
      readQualifier s nesting head tail
      readIdentifierString s nesting) := by
  rw [readQualifiedIdentifierString, readQualifier]
  split_ifs
  · simp
  · simp only [bind_assoc]
    refine bind_congr fun _ => bind_congr fun found => ?_
    cases found <;> simp

/-! ## Enumerators -/

/-- An enumerator is read from its tag, or from its name, if the reader takes no part of it for the
name of the enum. -/
def LegibleEnumerator (s : TextSerializer) (options : TextOptions) (name : String)
    (e : EnumeratorDescriptor) : Prop :=
  (s.format.enumFormat = .tag →
      s.LegibleSuffix options (s.format.integerFormat = .withSignSuffix ∧ true)) ∧
    (s.format.enumFormat = .identifier →
      (s.format.objectFormat = .withTypeName ∧ options.style = .multiLine) ∨
        (s.options.policy = .relaxed ∧ ¬ascii name <+: ascii e.name))

instance (name : String) (e : EnumeratorDescriptor) : Decidable (s.LegibleEnumerator options name e) :=
  inferInstanceAs (Decidable ((_ → _) ∧ (_ → _ ∨ (_ ∧ _))))

/-- The names of an enum and of its enumerators. -/
structure SpelledEnum (name : String) (es : List EnumeratorDescriptor) : Prop where
  name : IsIdentifier name
  nodup : (es.map EnumeratorDescriptor.name).Nodup
  enumerators (e : EnumeratorDescriptor) (he : e ∈ es) : IsIdentifier e.name ∧ e.name ≠ ""

theorem enumeratorFromName_of_mem {name : String} {es : List EnumeratorDescriptor}
    (h : SpelledEnum name es) {e : EnumeratorDescriptor} (he : e ∈ es) :
    enumeratorFromName name es (ascii e.name) = .ok e := by
  have hfind : es.find? (fun e' => ascii e'.name = ascii e.name) = some e := by
    cases hr : es.find? (fun e' => ascii e'.name = ascii e.name) with
    | none => exact absurd (decide_eq_true rfl) (List.find?_eq_none.mp hr e he)
    | some e' =>
      have hascii : ascii e'.name = ascii e.name := by simpa using List.find?_some hr
      have hmem := List.mem_of_find?_eq_some hr
      have hname := ascii_injOn (h.enumerators e' hmem).1 (h.enumerators e he).1 hascii
      rw [List.inj_on_of_nodup_map h.nodup hmem he hname]
  rw [enumeratorFromName, hfind]

theorem enumeratorText_tag (hformat : s.format.enumFormat = .tag) (name : String)
    (e : EnumeratorDescriptor) : (s.styled options).enumeratorText name e =
      (s.styled options).integerText 10 true e.tag.toNat := by
  rw [enumeratorText, show (s.styled options).format.enumFormat = .tag from hformat]

theorem enumeratorText_identifier (hformat : s.format.enumFormat = .identifier) (name : String)
    (e : EnumeratorDescriptor) : (s.styled options).enumeratorText name e =
      if s.format.objectFormat = .withTypeName ∧ options.style = .multiLine then
        ascii name ++ ascii "::" ++ ascii e.name else ascii e.name := by
  rw [enumeratorText, show (s.styled options).format.enumFormat = .identifier from hformat]
  rfl

/-- The name of an enumerator, with or without the name of the enum. -/
theorem behaves_readQualified (hs : s.Known) (h : Separates s trail P) {name : String}
    {es : List EnumeratorDescriptor} (hes : SpelledEnum name es) {e : EnumeratorDescriptor} (he : e ∈ es)
    (hformat : s.format.enumFormat = .identifier) :
    Behaves P (readQualifiedIdentifierString s (state :: nesting) (ascii name) (ascii "::"))
      ((s.styled options).enumeratorText name e ++ trail)
      (if s.LegibleEnumerator options name e then some (ascii e.name) else none) := by
  have hidentifier : Behaves P (readIdentifierString s (state :: nesting)) (ascii e.name ++ trail)
      (some (ascii e.name)) := by
    refine behaves_finalized hs h (ReadsBefore.behaves ?_)
    exact (readsBefore_identifier (hes.enumerators e he).1).mono fun _ h => h.identifierEnd
  have hlegible : s.LegibleEnumerator options name e ↔
      (s.format.objectFormat = .withTypeName ∧ options.style = .multiLine) ∨
        (s.options.policy = .relaxed ∧ ¬ascii name <+: ascii e.name) := by
    simp [LegibleEnumerator, hformat]
  rw [readQualifiedIdentifierString_eq, enumeratorText_identifier hformat]
  by_cases hstyle : s.format.objectFormat = .withTypeName ∧ options.style = .multiLine
  · rw [if_pos hstyle, if_pos (hlegible.mpr (.inl hstyle))]
    refine ReadsBefore.then_nil (readsBefore_whitespace blank_nil) (fun rest _ => ?_) ?_
    · rw [List.append_assoc, List.append_assoc, List.append_assoc]
      exact nonBlank_identifier hes.name (by rintro b hb; cases hb; rfl)
    · rw [List.append_assoc]
      exact (reads_readQualifier _ _).before.then (P := fun _ => True) (fun _ _ => trivial) hidentifier
  · obtain ⟨b, t, hname, hsymbol⟩ := exists_identifier (hes.enumerators e he).1 (hes.enumerators e he).2
    rw [if_neg hstyle]
    simp only [hlegible.trans (or_iff_right hstyle)]
    refine ReadsBefore.then_nil (readsBefore_whitespace blank_nil) (fun rest _ => ?_) ?_
    · rw [hname]
      rintro c hc
      cases hc
      exact not_isWhitespace_of_identifier hsymbol
    · have hqualifier := (behaves_readQualifier (s := s) state nesting hes.name
        (hes.enumerators e he).1).bind (Q := P) (u := ascii e.name ++ trail)
        (g := fun _ => some (ascii e.name)) (fun rest hrest =>
          ⟨trail ++ rest, List.append_assoc .., h.ends hs hrest⟩) fun _ _ => hidentifier
      split_ifs at hqualifier ⊢ <;> exact hqualifier

theorem behaves_enumerator {text : List UInt8} {p : Prop} [Decidable p] {e : EnumeratorDescriptor}
    {m : ReadText (Except Exception EnumeratorDescriptor)}
    (hread : Behaves P m text (if p then some (.ok e) else none)) :
    Behaves P (do match ← m with
      | .ok e => return e.value
      | .error e => Parse.fail fun _ => .thrown e) text (if p then some e.value else none) := by
  have hvalue : (if p then some e.value else none) =
      (if p then some (.ok e) else none : Option (Except Exception EnumeratorDescriptor)).map
        fun _ => e.value := by split_ifs <;> rfl
  rw [← List.append_nil text, hvalue]
  refine hread.bind_reads (fun _ h => h) fun a ha => ?_
  split_ifs at ha
  · cases ha
    exact .pure e.value
  · cases ha

/-- **An enumerator** is read from its text. -/
theorem behaves_readEnum (hs : s.Known) (h : Separates s trail P) {name : String}
    {es : List EnumeratorDescriptor} (htags : (es.map EnumeratorDescriptor.tag).Nodup)
    (hes : s.format.enumFormat = .identifier → SpelledEnum name es) {e : EnumeratorDescriptor}
    (he : e ∈ es) :
    Behaves P (s.readEnum (state :: nesting) name es) ((s.styled options).enumeratorText name e ++ trail)
      (if s.LegibleEnumerator options name e then some e.value else none) := by
  cases hformat : s.format.enumFormat with
  | tag =>
    have hlegible : s.LegibleEnumerator options name e ↔
        s.LegibleSuffix options (s.format.integerFormat = .withSignSuffix ∧ true) := by
      simp [LegibleEnumerator, hformat]
    have hunsigned : Behaves P (readUnsigned s 32 (state :: nesting))
        ((s.styled options).integerText 10 true e.tag.toNat ++ trail)
        (if s.LegibleSuffix options (s.format.integerFormat = .withSignSuffix ∧ true)
          then some e.tag else none) := behaves_readUnsigned hs h 32 (.inl rfl) (by omega) e.tag
    have hread := hunsigned.bind_pure (g := enumeratorFromTag name es)
    rw [apply_ite (Option.map _), Option.map_some, Option.map_none,
      CborSerializer.enumeratorFromTag_of_mem htags he] at hread
    simp only [hlegible] at hread ⊢
    rw [enumeratorText_tag hformat, readEnum, hformat]
    exact behaves_enumerator hread
  | identifier =>
    have hqualified : Behaves P
        (readQualifiedIdentifierString s (state :: nesting) (ascii name) (ascii "::"))
        ((s.styled options).enumeratorText name e ++ trail)
        (if s.LegibleEnumerator options name e then some (ascii e.name) else none) :=
      behaves_readQualified hs h (hes hformat) he hformat
    have hread := hqualified.bind_pure (g := enumeratorFromName name es)
    rw [apply_ite (Option.map _), Option.map_some, Option.map_none,
      enumeratorFromName_of_mem (hes hformat) he] at hread
    rw [readEnum, hformat]
    exact behaves_enumerator hread

/-! ## The beginnings of values -/

/-- The text of a value: it is neither the end of an array nor that of a property without a value. -/
structure Begins (s : TextSerializer) (text : List UInt8) : Prop where
  ne_nil : text ≠ []
  nonBlank (rest : List UInt8) : NonBlank (text ++ rest)
  not_null (rest : List UInt8) (h : Ends rest) : ¬s.format.nullValue <+: text ++ rest
  not_end (rest : List UInt8) : ¬s.format.arrayEnd <+: text ++ rest

theorem begins_of_head (hs : s.Known) {b : UInt8} (hb : isWhitespace b = false)
    (hjson : s.format = JsonFormat → b ≠ 0x6E ∧ b ≠ 0x5D)
    (hstring : s.format = StringFormat → b ≠ 0x3C ∧ b ≠ 0x7D) (text : List UInt8) :
    Begins s (b :: text) := by
  have hnot {c : UInt8} (hc : b ≠ c) (str rest : List UInt8) : ¬(c :: str) <+: b :: text ++ rest :=
    fun ⟨_, ht⟩ => hc (List.cons.inj ht).1.symm
  refine ⟨List.cons_ne_nil b text, ?_, fun rest _ => ?_, fun rest => ?_⟩
  · rintro rest c hc
    cases hc
    exact hb
  · rcases hs with hs | hs
    · rw [hs]
      exact hnot (hjson hs).1 _ rest
    · rw [hs]
      exact hnot (hstring hs).1 _ rest
  · rcases hs with hs | hs
    · rw [hs]
      exact hnot (hjson hs).2 _ rest
    · rw [hs]
      exact hnot (hstring hs).2 _ rest

/-- Numbers, which can begin like the word for nothing in one of the formats. -/
theorem begins_number (hs : s.Known) (htext : NumberText text) {suffix : List UInt8}
    (hsuffix : s.format = JsonFormat → suffix = []) : Begins s (text ++ suffix) := by
  rcases hs with hs | hs
  · have hstarts := htext.starts
    rw [hsuffix hs, List.append_nil]
    refine ⟨hstarts.ne_nil, hstarts.nonBlank, fun rest hrest => ?_, fun rest => ?_⟩
    · rw [hs]
      exact hstarts.not_null rest hrest.delimited
    · rw [hs]
      exact hstarts.not_end rest
  · obtain ⟨b, t, rfl⟩ := List.exists_cons_of_ne_nil htext.1
    have hall : ∀ b ∈ numberSymbols, isWhitespace b = false ∧ b ≠ 0x3C ∧ b ≠ 0x7D := by decide +kernel
    obtain ⟨hblank, hnull, hend⟩ := hall b (htext.2 b List.mem_cons_self)
    refine begins_of_head (.inr hs) hblank (fun hjson => ?_) (fun _ => ⟨hnull, hend⟩) _
    rw [hs] at hjson
    cases hjson

theorem begins_identifier (hs : s.format = StringFormat) {name : String} (h : IsIdentifier name)
    (hne : name ≠ "") (str : List UInt8) : Begins s (ascii name ++ str) := by
  obtain ⟨b, t, hname, hsymbol⟩ := exists_identifier h hne
  rw [hname]
  refine begins_of_head (.inr hs) (not_isWhitespace_of_identifier hsymbol) (fun hjson => ?_)
    (fun _ => ⟨?_, ?_⟩) _
  · rw [hs] at hjson
    cases hjson
  · rintro rfl
    exact absurd hsymbol (by decide)
  · rintro rfl
    exact absurd hsymbol (by decide)

theorem suffixText_json (hs : s.format = JsonFormat) (isUnsigned : Bool) (str : List UInt8) :
    (s.styled options).suffixText ((s.styled options).format.integerFormat = .withSignSuffix ∧ isUnsigned)
      str = [] := by
  have hformat : (s.styled options).format.integerFormat = .withoutSignSuffix :=
    congrArg TextFormat.integerFormat hs
  rw [suffixText, hformat]
  exact if_neg fun h => by simp at h

theorem begins_integerText (hs : s.Known) {base : ℕ} (hbase : base = 10 ∨ base = 2) (isUnsigned : Bool)
    (value : ℤ) : Begins s ((s.styled options).integerText base isUnsigned value) := by
  rcases hbase with rfl | rfl
  · exact begins_number hs (numberText_toChars value) fun hjson => suffixText_json hjson isUnsigned _
  · exact begins_of_head hs (by decide) (fun _ => by decide) (fun _ => by decide) _

theorem begins_fundamentalText (hs : s.Known) (t : FundamentalType) (v : t.Value) (hv : t.Written s v) :
    Begins s ((s.styled options).fundamentalText t v) := by
  have hquoted (str : List UInt8) : Begins s (quoted str) :=
    begins_of_head hs (by decide) (fun _ => by decide) (fun _ => by decide) _
  have hfloat64 (v : BitVec 64) (hv : ParsedBy s.converters.strtod (float64Text s.converters v)) :
      Begins s (float64Text s.converters v) := by
    have hnumber := begins_number hs hv.1 fun _ => rfl
    rwa [List.append_nil] at hnumber
  cases t with
  | boolean => cases v <;>
      exact begins_of_head hs (by decide) (fun _ => by decide) (fun _ => by decide) _
  | int8 | int16 | int32 | int64 => exact begins_integerText hs (.inl rfl) false _
  | uint8 | uint16 | uint32 | uint64 => exact begins_integerText hs (.inl rfl) true _
  | propertySet =>
    refine begins_integerText hs ?_ true _
    cases (s.styled options).format.propertySetFormat <;> simp
  | float32 =>
    refine begins_number hs hv.1 fun hjson => ?_
    have hformat : (s.styled options).format.floatFormat = .withoutSizeSuffix :=
      congrArg TextFormat.floatFormat hjson
    rw [suffixText, hformat]
    exact if_neg fun h => by simp at h
  | float64 | steadyTimepoint | duration => exact hfloat64 v hv
  | timepoint =>
    have hstyled : (s.styled options).format = s.format := rfl
    cases hformat : s.format.timepointFormat with
    | fractionalSeconds =>
      simp only [FundamentalType.Written, hformat] at hv
      simp only [fundamentalText, hstyled, hformat]
      exact hfloat64 v hv
    | iso8601String =>
      simp only [fundamentalText, hstyled, hformat]
      exact hquoted _
  | uuid | string => exact hquoted _

theorem begins_enumeratorText (hs : s.Known) {name : String} {es : List EnumeratorDescriptor}
    (hes : s.format.enumFormat = .identifier → SpelledEnum name es) {e : EnumeratorDescriptor}
    (he : e ∈ es) : Begins s ((s.styled options).enumeratorText name e) := by
  cases hformat : s.format.enumFormat with
  | tag =>
    rw [enumeratorText_tag hformat]
    exact begins_integerText hs (.inl rfl) true _
  | identifier =>
    have hstring : s.format = StringFormat := hs.resolve_left fun hjson => by
      rw [hjson] at hformat
      cases hformat
    obtain ⟨hname, hne⟩ := (hes hformat).enumerators e he
    have hshort := begins_identifier hstring hname hne []
    rw [List.append_nil] at hshort
    rw [enumeratorText_identifier hformat]
    split_ifs
    · rw [List.append_assoc]
      by_cases hempty : name = ""
      · subst hempty
        exact begins_of_head hs (by decide) (fun _ => by decide) (fun _ => by decide) _
      · exact begins_identifier hstring (hes hformat).name hempty _
    · exact hshort

/-! ## Members -/

theorem readObjectMemberName_json (hs : s.format = JsonFormat) :
    readObjectMemberName s nesting =
      readObjectMemberName (JsonSerializer s.options s.converters) nesting := by
  have hcommas : s.format.Commas := hs ▸ commas_json
  have hread : readIdentifierString s nesting =
      readIdentifierString (JsonSerializer s.options s.converters) nesting := by
    rw [readIdentifierString, readIdentifierString, finalized, finalized, finalizeRead_eq hcommas]
  rw [readObjectMemberName, readObjectMemberName, hread, hs]
  rfl

/-- **The name of a member** is read, up to a blank before the value. -/
theorem readsBefore_memberName (hs : s.Known) (options : TextOptions) (nesting : List State)
    {name : String} (hname : IsIdentifier name) :
    ∃ init gap, (s.styled options).memberName (ascii name) = init ++ gap ∧ Spaces gap ∧
      ReadsBefore (fun rest => ∃ rest', rest = gap ++ rest' ∧ NonBlank rest')
        (readObjectMemberName s (.object :: nesting)) init (ascii name) := by
  rcases hs with hs | hs
  · refine ⟨Json.memberName options ⟨name, 0, false⟩, [], ?_, nofun, ?_⟩
    · have hformat : (s.styled options).format = JsonFormat := hs
      rw [memberName, memberValueBegin, hformat, List.append_nil, Json.memberName, List.append_assoc,
        List.append_assoc, if_neg fun h => h rfl]
      show _ ++ (_ ++ (_ ++ if options.style ≠ .minified then _ else _)) = _
      rw [ite_not]
      rfl
    · rw [readObjectMemberName_json hs]
      refine (Json.readsBefore_memberName (p := ⟨name, 0, false⟩) hname).mono ?_
      rintro _ ⟨rest, rfl, hrest⟩
      exact hrest
  · have hcommas : s.format.Commas := hs ▸ commas_string
    have hread (gap : List UInt8) (hgap : Spaces gap) :
        ReadsBefore (fun _ => True) (readObjectMemberName s (.object :: nesting))
          (ascii "." ++ ((ascii name ++ gap) ++ ascii "=")) (ascii name) := by
      have hend (t : List UInt8) : Ends (gap ++ 0x3D :: t) ∨ gap = [] := by
        cases gap with
        | nil => exact .inr rfl
        | cons c gap =>
          refine .inl (ends_cons ?_)
          rcases hgap c List.mem_cons_self with rfl | rfl <;> decide
      have hidentifier : ReadsBefore (fun rest => ∃ t, rest = 0x3D :: t)
          (readIdentifierString s (.object :: nesting)) (ascii name ++ gap) (ascii name) := by
        refine (readsBefore_identifier hname).bind ?_ (ReadsBefore.bind_pure (a := ()) ?_)
        · rintro _ ⟨t, rfl⟩
          rcases hend t with hends | rfl
          · exact hends.identifierEnd
          · rintro b hb
            cases hb
            decide
        · rw [finalizeRead_eq hcommas, finalizeRead_cons]
          refine ((readsBefore_skipped hgap.blank (ascii ",")).mono ?_).bind_pure
          rintro _ ⟨t, rfl⟩
          refine ⟨?_, ?_⟩
          · rintro c hc
            cases hc
            decide
          · rintro ⟨u, hu⟩
            exact absurd (List.cons.inj hu).1 (by decide)
      rw [readObjectMemberName, hs]
      refine ReadsBefore.bind (P := fun _ => True)
        (reads_consumeTokenAfterWhitespace blank_nil (by decide) []).before (fun _ _ => trivial) ?_
      refine hidentifier.bind (fun rest _ => ⟨rest, rfl⟩) ?_
      exact (reads_consumeTokenAfterWhitespace (w := []) blank_nil (by decide) []).before.bind_pure
    by_cases hstyle : options.style = .minified
    · refine ⟨_, [], ?_, nofun, (hread [] nofun).mono fun _ _ => trivial⟩
      have hformat : (s.styled options).format = StringFormat := hs
      have hoptions : (s.styled options).options = options := rfl
      rw [memberName, memberValueBegin, hformat, hoptions, if_pos (by decide), if_pos hstyle]
      simp [StringFormat, ascii]
    · refine ⟨_, ascii " ", ?_, ?_, (hread (ascii " ") ?_).mono fun _ _ => trivial⟩
      · have hformat : (s.styled options).format = StringFormat := hs
        have hoptions : (s.styled options).options = options := rfl
        rw [memberName, memberValueBegin, hformat, hoptions, if_pos (by decide), if_neg hstyle]
        simp [StringFormat, ascii]
      all_goals
        intro b hb
        exact .inl (List.mem_singleton.mp hb)

/-- A member begins like no end of an object. -/
theorem head_memberName (hs : s.Known) (name : List UInt8) :
    ∃ b t, (s.styled options).memberName name = b :: t ∧ (b = 0x22 ∨ b = 0x2E) := by
  rcases hs with hs | hs
  · have hformat : (s.styled options).format = JsonFormat := hs
    exact ⟨0x22, _, by rw [memberName, hformat]; rfl, .inl rfl⟩
  · have hformat : (s.styled options).format = StringFormat := hs
    exact ⟨0x2E, _, by rw [memberName, hformat]; rfl, .inr rfl⟩

/-- A property without a value. -/
theorem readsBefore_null (hs : s.Known) (h : Separates s trail P) {gap : List UInt8} (hgap : Spaces gap)
    {d : TypeDescriptor} (read : Value d → ReadText (Value d)) (v : Option (Value d)) :
    ReadsBefore P (readValue s (state :: nesting) v read) (gap ++ (s.format.nullValue ++ trail)) none := by
  obtain ⟨b, t, hnull, hblank⟩ : ∃ b t, s.format.nullValue = b :: t ∧ isWhitespace b = false := by
    rcases hs with hs | hs <;> exact ⟨_, _, by rw [hs]; rfl, by decide⟩
  have htry : ReadsBefore P (tryReadNull s (state :: nesting)) (gap ++ (s.format.nullValue ++ trail))
      true := by
    rw [tryReadNull, if_neg (by rw [hnull]; exact List.cons_ne_nil b t), hnull, ← List.append_assoc]
    exact ReadsBefore.bind (P := fun _ => True) (reads_tokenAfterWhitespace hgap.blank hblank t).before
      (fun _ _ => trivial) (readsBefore_finalizeRead hs h state nesting).bind_pure
  exact htry.bind_nil_right (.pure none)

/-- A property with a value, which is read over what is there. -/
theorem behaves_readValue (hs : s.Known) (h : Separates s trail P) {gap : List UInt8} (hgap : Spaces gap)
    {d : TypeDescriptor} {read : Value d → ReadText (Value d)} {v : Option (Value d)}
    {r : Option (Value d)} (hbegins : Begins s text)
    (hread : Behaves P (read (v.getD (Value.fresh d))) (text ++ trail) r) :
    Behaves P (readValue s (state :: nesting) v read) (gap ++ (text ++ trail)) (r.map some) := by
  have hnull : s.format.nullValue ≠ [] := by
    rcases hs with hs | hs <;> rw [hs] <;> decide
  have htry : ReadsBefore (fun rest => NonBlank rest ∧ ¬s.format.nullValue <+: rest)
      (tryReadNull s (state :: nesting)) gap false := by
    rw [tryReadNull, if_neg hnull]
    exact (readsBefore_skipped hgap.blank _).bind_nil_right (.pure false)
  refine htry.then (fun rest hrest => ?_) hread.bind_pure
  rw [List.append_assoc]
  exact ⟨hbegins.nonBlank _, hbegins.not_null _ (h.ends hs hrest)⟩

end TextSerializer

end Dots
