import Dots.Text.Reader

/-!
# Reading tokens

* `Blank`, `NonBlank`, `Delimited`: whitespace, and what may follow it or a number.
* `reads_token`, `readsBefore_whitespace`, `readsBefore_skipped`: tokens that are there or not.
* **`readsBefore_unsigned`**, **`readsBefore_signed`**: integers.
* **`reads_escaped`**, **`reads_quoted`**: strings of any symbols.
-/

set_option autoImplicit false

namespace Dots

namespace TextReader

open Parse

variable {w rest token : List UInt8} {P : List UInt8 → Prop}

/-! ## What follows -/

/-- Nothing but whitespace. -/
def Blank (w : List UInt8) : Prop := ∀ b ∈ w, isWhitespace b = true

/-- No whitespace comes first. -/
def NonBlank (rest : List UInt8) : Prop := ∀ b ∈ rest.head?, isWhitespace b = false

/-- A number ends here. -/
def Delimited (rest : List UInt8) : Prop :=
  ∀ b ∈ rest.head?, isWhitespace b = true ∨ b ∈ ascii ",]\x7d"

/-- The digits of a number end here, perhaps before a suffix. -/
def NumberEnd (rest : List UInt8) : Prop :=
  ∀ b ∈ rest.head?, isWhitespace b = true ∨ b ∈ ascii ",]\x7duf"

theorem Delimited.numberEnd (h : Delimited rest) : NumberEnd rest := by
  have hmore : ascii ",]\x7d" ⊆ ascii ",]\x7duf" := by decide +kernel
  exact fun b hb => (h b hb).imp_right fun hb => hmore hb

theorem NumberEnd.ne {b c : UInt8} (h : NumberEnd (b :: rest)) (hc : isWhitespace c = false)
    (hc' : c ∉ ascii ",]\x7duf") : b ≠ c := by
  rintro rfl
  rcases h b rfl with hb | hb
  · rw [hb] at hc
    cases hc
  · exact hc' hb

theorem Delimited.ne {b c : UInt8} (h : Delimited (b :: rest)) (hc : isWhitespace c = false)
    (hc' : c ∉ ascii ",]\x7d") : b ≠ c := by
  rintro rfl
  rcases h b rfl with hb | hb
  · rw [hb] at hc
    cases hc
  · exact hc' hb

theorem takeWhile_blank (hw : Blank w) (hrest : NonBlank rest) :
    (w ++ rest).takeWhile isWhitespace = w := by
  rw [List.takeWhile_append_of_pos hw]
  cases rest with
  | nil => simp
  | cons b rest => simp [hrest b rfl]

/-- Whitespace is passed. -/
theorem readsBefore_whitespace (hw : Blank w) : ReadsBefore NonBlank consumeWhitespace w () := by
  intro o rest hrest
  show Except.ok ((), _) = _
  rw [takeWhile_blank hw hrest, Cursor.advance, List.drop_left]

theorem isPrefixOf_append (token rest : List UInt8) : token.isPrefixOf (token ++ rest) = true :=
  List.isPrefixOf_iff_prefix.mpr (List.prefix_append token rest)

/-- A token that is there. -/
theorem reads_token (token : List UInt8) : Reads (tryConsumeToken token) token true := by
  intro o rest
  show (if token.isPrefixOf (token ++ rest) then _ else _) = _
  rw [if_pos (isPrefixOf_append token rest), Cursor.advance, List.drop_left]

/-- A token that is not there. -/
theorem readsBefore_no_token (token : List UInt8) :
    ReadsBefore (fun rest => ¬token <+: rest) (tryConsumeToken token) [] false := by
  intro o rest hrest
  show (if token.isPrefixOf rest then _ else _) = _
  rw [if_neg fun h => hrest (List.isPrefixOf_iff_prefix.mp h)]
  rfl

theorem reads_consumeToken (token : List UInt8) : Reads (consumeToken token) token () := by
  have hread := (reads_token token).bind (f := fun b : Bool =>
    if b = true then (pure () : ReadText Unit) else tokenError token) (u := []) (b := ()) (.pure ())
  rwa [List.append_nil] at hread

/-- What starts with a symbol is read behind whitespace. -/
theorem reads_afterWhitespace {α : Type} {m : ReadText α} {a : α} (hw : Blank w) {b : UInt8}
    (hb : isWhitespace b = false) (h : Reads m (b :: token) a) :
    Reads (consumeWhitespace >>= fun _ => m) (w ++ (b :: token)) a := by
  have hread : ReadsBefore (fun _ => True) (consumeWhitespace >>= fun _ => m) (w ++ (b :: token)) a :=
    (readsBefore_whitespace hw).bind (fun rest _ => by
      rintro c hc
      cases hc
      exact hb) h.before
  exact fun o rest => hread o rest trivial

theorem blank_nil : Blank [] := fun _ h => absurd h List.not_mem_nil

theorem reads_tokenAfterWhitespace (hw : Blank w) {b : UInt8} (hb : isWhitespace b = false)
    (token : List UInt8) :
    Reads (tryConsumeTokenAfterWhitespace (b :: token)) (w ++ (b :: token)) true :=
  reads_afterWhitespace hw hb (reads_token (b :: token))

theorem reads_consumeTokenAfterWhitespace (hw : Blank w) {b : UInt8} (hb : isWhitespace b = false)
    (token : List UInt8) :
    Reads (consumeTokenAfterWhitespace (b :: token)) (w ++ (b :: token)) () :=
  reads_afterWhitespace hw hb (reads_consumeToken (b :: token))

/-- Whitespace before another token. -/
theorem readsBefore_skipped (hw : Blank w) (token : List UInt8) :
    ReadsBefore (fun rest => NonBlank rest ∧ ¬token <+: rest)
      (tryConsumeTokenAfterWhitespace token) w false := by
  have htoken := (readsBefore_no_token token).mono (Q := fun rest => NonBlank rest ∧ ¬token <+: rest)
    fun _ h => h.2
  have hread := (readsBefore_whitespace hw).bind (f := fun _ => tryConsumeToken token)
    (fun _ h => h.1) htoken
  rwa [List.append_nil] at hread

/-- Two symbols of which the second is not there. -/
theorem not_isPrefix_of_second {a b : UInt8} (hw : w ≠ []) (hb : b ∉ w)
    (hrest : ∀ c ∈ rest.head?, c ≠ b) (more : List UInt8) : ¬(a :: b :: more) <+: w ++ rest := by
  rintro ⟨t, ht⟩
  obtain ⟨c, _ | ⟨c', w⟩, rfl⟩ := List.exists_cons_of_ne_nil hw
  · cases rest with
    | nil => simp at ht
    | cons d rest =>
      simp only [List.cons_append, List.nil_append, List.cons.injEq] at ht
      exact hrest d rfl ht.2.1.symm
  · simp only [List.cons_append, List.cons.injEq] at ht
    exact hb (by rw [ht.2.1]; simp)

end TextReader

/-! ## Integers -/

section Digits

variable {base n : ℕ}

theorem symbolDigit_digitSymbol (hbase : base ≤ 10) {d : ℕ} (h : d < base) :
    symbolDigit base (digitSymbol d) = some d := by
  have hsymbol : ∀ d < 10, 0x30 ≤ digitSymbol d ∧ digitSymbol d ≤ 0x39 ∧
      (digitSymbol d).toNat - 0x30 = d := by decide
  obtain ⟨hlow, hhigh, hvalue⟩ := hsymbol d (by omega)
  rw [symbolDigit, if_pos ⟨hlow, hhigh⟩, hvalue]
  simp [h]

theorem digitSymbol_mem {d : ℕ} (h : d < 10) : digitSymbol d ∈ ascii "0123456789" := by
  interval_cases d <;> decide

theorem lt_of_mem_toDigits (hbase : 0 < base) : ∀ (fuel n : ℕ), ∀ d ∈ toDigits base fuel n, d < base
  | 0, _, _, h => by simp [toDigits] at h
  | fuel + 1, n, d, h => by
    rw [toDigits] at h
    split_ifs at h with hn
    · rw [List.mem_singleton] at h
      omega
    · rcases List.mem_append.mp h with h | h
      · exact lt_of_mem_toDigits hbase fuel _ d h
      · rw [List.mem_singleton] at h
        exact h ▸ Nat.mod_lt n hbase

/-- The symbols of a number. -/
theorem mem_toChars (hpos : 0 < base) (hbase : base ≤ 10) (value : ℤ) :
    ∀ b ∈ toChars base value, b ∈ ascii "-" ++ ascii "0123456789" := by
  intro b hb
  rw [toChars, List.mem_append] at hb
  refine List.mem_append.mpr (hb.imp (fun hb => ?_) fun hb => ?_)
  · split_ifs at hb
    · exact hb
    · cases hb
  · obtain ⟨d, hd, rfl⟩ := List.mem_map.mp hb
    have hlt := lt_of_mem_toDigits hpos 64 _ d hd
    exact digitSymbol_mem (by omega)

theorem toDigits_ne_nil (fuel n : ℕ) : toDigits base (fuel + 1) n ≠ [] := by
  rw [toDigits]
  split_ifs <;> simp

/-- The digits of a number are those of its text. -/
theorem ofDigits_toDigits : ∀ (fuel n : ℕ), n < base ^ fuel → ofDigits base (toDigits base fuel n) = n
  | 0, n, h => by
    rw [pow_zero, Nat.lt_one_iff] at h
    subst h
    rfl
  | fuel + 1, n, h => by
    rw [toDigits]
    split_ifs with hn
    · simp [ofDigits]
    · have hdiv : n / base < base ^ fuel := Nat.div_lt_of_lt_mul (by rwa [← pow_succ'])
      have ih := ofDigits_toDigits fuel (n / base) hdiv
      rw [ofDigits] at ih
      rw [ofDigits, List.foldl_append, ih]
      exact Nat.div_add_mod' n base

/-- The symbols of decimal digits. -/
theorem symbolDigit_eq_none (hbase : base ≤ 10) {b : UInt8} (h : b.toNat < 0x30 ∨ 0x39 < b.toNat) :
    symbolDigit base b = none := by
  unfold symbolDigit
  simp only [UInt8.le_iff_toNat_le]
  split_ifs with h₁ h₂ h₃
  · simp at h₁
    omega
  · simp at h₂ ⊢
    omega
  · simp at h₃ ⊢
    omega
  · rfl

theorem TextReader.NumberEnd.symbolDigit (hbase : base ≤ 10) {b : UInt8} {rest : List UInt8}
    (h : TextReader.NumberEnd (b :: rest)) : symbolDigit base b = none := by
  apply symbolDigit_eq_none hbase
  rcases h b rfl with hb | hb
  · simp [TextReader.isWhitespace, UInt8.lt_iff_toNat_lt, UInt8.le_iff_toNat_le] at hb
    omega
  · have hmem : b = 0x2C ∨ b = 0x5D ∨ b = 0x7D ∨ b = 0x75 ∨ b = 0x66 := by simpa [ascii] using hb
    rcases hmem with rfl | rfl | rfl | rfl | rfl <;> decide

theorem leadingDigits_append (hbase : base ≤ 10) {rest : List UInt8}
    (hrest : TextReader.NumberEnd rest) :
    ∀ ds : List ℕ, (∀ d ∈ ds, d < base) → leadingDigits base (ds.map digitSymbol ++ rest) = ds
  | [], _ => by
    cases rest with
    | nil => rfl
    | cons b rest =>
      simp [leadingDigits, hrest.symbolDigit hbase]
  | d :: ds, h => by
    rw [List.map_cons, List.cons_append, leadingDigits,
      symbolDigit_digitSymbol hbase (h d List.mem_cons_self)]
    simp only [leadingDigits_append hbase hrest ds fun d hd => h d (List.mem_cons_of_mem _ hd)]

theorem length_leadingDigits_le (base : ℕ) (w : List UInt8) :
    (leadingDigits base w).length ≤ w.length := by
  induction w with
  | nil => exact le_rfl
  | cons b w ih =>
    rw [leadingDigits]
    split
    · exact Nat.succ_le_succ ih
    · exact Nat.zero_le _

theorem lt_of_mem_leadingDigits {d : ℕ} : ∀ {w : List UInt8}, d ∈ leadingDigits base w → d < base
  | [], h => by simp [leadingDigits] at h
  | b :: w, h => by
    rw [leadingDigits] at h
    cases hb : symbolDigit base b with
    | none => simp [hb] at h
    | some e =>
      simp only [hb, List.mem_cons] at h
      rcases h with rfl | h
      · exact of_decide_eq_true (Option.filter_eq_some_iff.mp hb).2
      · exact lt_of_mem_leadingDigits h

/-- The digits stop at another symbol. -/
theorem leadingDigits_append_cons {b : UInt8} (hb : symbolDigit base b = none) (rest : List UInt8) :
    ∀ w : List UInt8, leadingDigits base (w ++ b :: rest) = leadingDigits base w
  | [] => by simp [leadingDigits, hb]
  | c :: w => by
    have ih := leadingDigits_append_cons hb rest w
    rw [List.cons_append, leadingDigits, leadingDigits, ih]

end Digits

namespace TextReader

open Parse TextWriter

variable {options : TextOptions} {converters : Converters} {nesting : List State}
  {text : List UInt8}

/-- The digits of a number of at most 64 bits, which are read again. -/
theorem toDigits_spec {base : ℕ} (htwo : 2 ≤ base) (hbase : base ≤ 10) {n : ℕ} (hn : n < 2 ^ 64)
    {rest : List UInt8} (hrest : NumberEnd rest) :
    leadingDigits base ((toDigits base 64 n).map digitSymbol ++ rest) = toDigits base 64 n ∧
      ofDigits base (toDigits base 64 n) = n :=
  ⟨leadingDigits_append hbase hrest _ (lt_of_mem_toDigits (by omega) 64 n),
    ofDigits_toDigits 64 n (hn.trans_le (Nat.pow_le_pow_left htwo 64))⟩

theorem fromCharsUnsigned_toChars {base : ℕ} (htwo : 2 ≤ base) (hbase : base ≤ 10) {w : ℕ}
    (hw : w ≤ 64) (v : BitVec w) {rest : List UInt8} (hrest : NumberEnd rest) :
    fromCharsUnsigned w base (toChars base v.toNat ++ rest) =
      some (v, (toChars base v.toNat).length) := by
  have hlt : v.toNat < 2 ^ 64 := v.isLt.trans_le (Nat.pow_le_pow_right (by omega) hw)
  obtain ⟨hdigits, hvalue⟩ := toDigits_spec htwo hbase hlt hrest
  have htext : toChars base (v.toNat : ℤ) = (toDigits base 64 v.toNat).map digitSymbol := by
    rw [toChars, if_neg (by omega)]
    rfl
  simp only [fromCharsUnsigned, htext, hdigits, hvalue]
  rw [if_neg fun h => h.elim (toDigits_ne_nil 63 v.toNat) (Nat.not_le.mpr v.isLt), BitVec.ofNat_toNat,
    BitVec.setWidth_eq, List.length_map]

theorem isPrefixOf_minus {d : ℕ} (hd : d < 10) (rest : List UInt8) :
    (ascii "-").isPrefixOf (digitSymbol d :: rest) = false := by
  interval_cases d <;> rfl

theorem fromCharsSigned_toChars {w : ℕ} (hpos : 0 < w) (hw : w ≤ 64) (v : BitVec w)
    {rest : List UInt8} (hrest : NumberEnd rest) :
    fromCharsSigned w 10 (toChars 10 v.toInt ++ rest) = some (v, (toChars 10 v.toInt).length) := by
  have hlow := BitVec.le_toInt v
  have hhigh := BitVec.toInt_lt (x := v)
  have hpow : (2 : ℤ) ^ (w - 1) ≤ 2 ^ 63 := pow_le_pow_right₀ (by norm_num) (by omega)
  have hlt : v.toInt.natAbs < 2 ^ 64 := by omega
  obtain ⟨hdigits, hvalue⟩ := toDigits_spec (by omega) le_rfl hlt hrest
  have hne : toDigits 10 64 v.toInt.natAbs ≠ [] := toDigits_ne_nil 63 _
  by_cases hneg : v.toInt < 0
  · have htext : toChars 10 v.toInt = ascii "-" ++ (toDigits 10 64 v.toInt.natAbs).map digitSymbol := by
      rw [toChars, if_pos hneg]
    have hrange : -((v.toInt.natAbs : ℕ) : ℤ) = v.toInt := by omega
    have hminus : (ascii "-").isPrefixOf (toChars 10 v.toInt ++ rest) = true := by
      rw [htext, List.append_assoc]
      exact isPrefixOf_append _ _
    have hdrop : (toChars 10 v.toInt ++ rest).drop 1 =
        (toDigits 10 64 v.toInt.natAbs).map digitSymbol ++ rest := by
      rw [htext]
      rfl
    simp only [fromCharsSigned, hminus, if_true, hdrop, hdigits, hvalue, hrange]
    rw [if_neg fun h => h.elim hne fun h => h.elim (by omega) (by omega), BitVec.ofInt_toInt, htext]
    simp [ascii, Nat.add_comm]
  · have htext : toChars 10 v.toInt = (toDigits 10 64 v.toInt.natAbs).map digitSymbol := by
      rw [toChars, if_neg hneg]
      rfl
    have hrange : ((v.toInt.natAbs : ℕ) : ℤ) = v.toInt := by omega
    have hminus : (ascii "-").isPrefixOf
        ((toDigits 10 64 v.toInt.natAbs).map digitSymbol ++ rest) = false := by
      cases hds : toDigits 10 64 v.toInt.natAbs with
      | nil => exact absurd hds hne
      | cons d ds => exact isPrefixOf_minus (lt_of_mem_toDigits (by omega) 64 v.toInt.natAbs d
          (by rw [hds]; exact List.mem_cons_self)) _
    rw [htext]
    simp only [fromCharsSigned, hminus, if_false, hdigits, hvalue, hrange, Bool.false_eq_true]
    rw [if_neg fun h => h.elim hne fun h => h.elim (by omega) (by omega), BitVec.ofInt_toInt]
    simp

/-! ## The beginnings of values -/

/-- The text of a value, before whatever ends a number: nothing else can begin like that. -/
structure Starts (text : List UInt8) : Prop where
  ne_nil : text ≠ []
  nonBlank (rest : List UInt8) : NonBlank (text ++ rest)
  not_null (rest : List UInt8) (h : Delimited rest) : ¬ascii "null" <+: text ++ rest
  not_end (rest : List UInt8) : ¬ascii "]" <+: text ++ rest

theorem starts_of_head {b : UInt8} (hb : isWhitespace b = false) (hnull : b ≠ 0x6E) (hend : b ≠ 0x5D)
    (text : List UInt8) : Starts (b :: text) where
  ne_nil := List.cons_ne_nil b text
  nonBlank rest := by
    rintro c hc
    cases hc
    exact hb
  not_null rest _ := by
    rintro ⟨t, ht⟩
    exact hnull (List.cons.inj ht).1.symm
  not_end rest := by
    rintro ⟨t, ht⟩
    exact hend (List.cons.inj ht).1.symm

/-- The symbols of numbers. -/
def numberSymbols : List UInt8 := ascii "+-.0123456789aefin"

/-- A text that can be one of a number. -/
def NumberText (text : List UInt8) : Prop := text ≠ [] ∧ ∀ b ∈ text, b ∈ numberSymbols

theorem mem_numberSymbols {b : UInt8} (h : b ∈ numberSymbols) :
    isWhitespace b = false ∧ b ≠ 0x5D ∧ b ≠ 0x62 ∧ b ≠ 0x75 ∧ b ≠ 0x78 := by
  have hall : ∀ b ∈ numberSymbols,
      isWhitespace b = false ∧ b ≠ 0x5D ∧ b ≠ 0x62 ∧ b ≠ 0x75 ∧ b ≠ 0x78 := by decide +kernel
  exact hall b h

theorem NumberText.starts (h : NumberText text) : Starts text where
  ne_nil := h.1
  nonBlank rest := by
    obtain ⟨b, w, rfl⟩ := List.exists_cons_of_ne_nil h.1
    rintro c hc
    cases hc
    exact (mem_numberSymbols (h.2 b List.mem_cons_self)).1
  not_null rest hrest := not_isPrefix_of_second h.1
    (fun hu => (mem_numberSymbols (h.2 _ hu)).2.2.2.1 rfl)
    (fun c hc => by
      cases rest with
      | nil => cases hc
      | cons d rest =>
        cases hc
        exact hrest.ne (by decide) (by decide)) _
  not_end rest := by
    obtain ⟨b, w, rfl⟩ := List.exists_cons_of_ne_nil h.1
    rintro ⟨t, ht⟩
    exact (mem_numberSymbols (h.2 b List.mem_cons_self)).2.1 (List.cons.inj ht).1.symm

/-- No radix comes before a number. -/
theorem NumberText.not_radix (h : NumberText text) {rest : List UInt8} (hrest : NumberEnd rest) :
    ¬ascii "0b" <+: text ++ rest ∧ ¬ascii "0x" <+: text ++ rest := by
  have hne (c : UInt8) (hc : isWhitespace c = false) (hc' : c ∉ ascii ",]\x7duf") :
      ∀ b ∈ rest.head?, b ≠ c := by
    intro b hb
    cases rest with
    | nil => cases hb
    | cons d rest =>
      cases hb
      exact hrest.ne hc hc'
  exact ⟨not_isPrefix_of_second h.1 (fun hb => (mem_numberSymbols (h.2 _ hb)).2.2.1 rfl)
      (hne _ (by decide) (by decide)) _,
    not_isPrefix_of_second h.1 (fun hb => (mem_numberSymbols (h.2 _ hb)).2.2.2.2 rfl)
      (hne _ (by decide) (by decide)) _⟩

theorem numberText_toChars (v : ℤ) : NumberText (toChars 10 v) := by
  refine ⟨?_, fun b hb => ?_⟩
  · rw [toChars]
    simp [toDigits_ne_nil 63 v.natAbs]
  · rw [toChars] at hb
    rcases List.mem_append.mp hb with hb | hb
    · split_ifs at hb
      · have hminus : b = 0x2D := by simpa [ascii] using hb
        subst hminus
        decide
      · cases hb
    · obtain ⟨d, hd, rfl⟩ := List.mem_map.mp hb
      have hd' : d < 10 := lt_of_mem_toDigits (by omega) 64 v.natAbs d hd
      interval_cases d <;> decide

/-! ## Numbers -/

theorem run_input_bind {α : Type} (f : List UInt8 → ReadText α) (c : Cursor UInt8) :
    (input >>= f).run c = (f c.rest).run c := rfl

theorem readsBefore_integer {w : ℕ} {isUnsigned : Bool} {v : BitVec w}
    {fromChars : ℕ → List UInt8 → Option (BitVec w × ℕ)} (htext : NumberText text)
    (h : ∀ rest, Delimited rest → fromChars 10 (text ++ rest) = some (v, text.length)) :
    ReadsBefore Delimited (readInteger (JsonSerializer options converters) nesting isUnsigned fromChars)
      text v := by
  have hradix : ReadsBefore (fun rest => ¬ascii "0b" <+: rest ∧ ¬ascii "0x" <+: rest) (do
      if ← tryConsumeToken (ascii "0b") then return 2
      else if ← tryConsumeToken (ascii "0x") then return 16
      else return 10 : ReadText ℕ) [] 10 := by
    refine ReadsBefore.bind_nil (readsBefore_no_token (ascii "0b")) (fun _ h => h.1) ?_
    exact ReadsBefore.bind_nil (readsBefore_no_token (ascii "0x")) (fun _ h => h.2) (.pure 10)
  have hsuffix : decide ((JsonSerializer options converters).format.integerFormat =
      .withSignSuffix ∧ isUnsigned = true) = false := by simp [JsonSerializer, JsonFormat]
  refine ReadsBefore.bind_nil (readsBefore_whitespace (w := []) (by simp [Blank]))
    (fun rest _ => htext.starts.nonBlank rest) ?_
  refine ReadsBefore.bind_nil hradix (fun rest hrest => htext.not_radix hrest.numberEnd) ?_
  intro o rest hrest
  rw [run_input_bind]
  dsimp only
  rw [h rest hrest]
  dsimp only
  rw [hsuffix]
  show Except.ok (v, _) = _
  rw [Cursor.advance, List.drop_left]

/-- **Unsigned integers** are read as they were written. -/
theorem readsBefore_unsigned {w : ℕ} (hw : w ≤ 64) (v : BitVec w) :
    ReadsBefore Delimited (readInteger (JsonSerializer options converters) nesting true
      (fromCharsUnsigned w)) (toChars 10 v.toNat) v :=
  readsBefore_integer (numberText_toChars _) fun _ hrest =>
    fromCharsUnsigned_toChars (by omega) le_rfl hw v hrest.numberEnd

/-- **Signed integers** are read as they were written. -/
theorem readsBefore_signed {w : ℕ} (hpos : 0 < w) (hw : w ≤ 64) (v : BitVec w) :
    ReadsBefore Delimited (readInteger (JsonSerializer options converters) nesting false
      (fromCharsSigned w)) (toChars 10 v.toInt) v :=
  readsBefore_integer (numberText_toChars _) fun _ hrest =>
    fromCharsSigned_toChars hpos hw v hrest.numberEnd

theorem readsBefore_float {w : ℕ} {v : BitVec w} {parse : List UInt8 → BitVec w × ℕ}
    (htext : NumberText text) (h : ∀ rest, Delimited rest → parse (text ++ rest) = (v, text.length)) :
    ReadsBefore Delimited (readFloat parse) text v := by
  intro o rest hrest
  show StateT.run (if (parse (text ++ rest)).2 = 0 then _ else _) _ = _
  rw [h rest hrest, if_neg fun hlength => htext.1 (List.length_eq_zero_iff.mp hlength)]
  show Except.ok (v, _) = _
  rw [Cursor.advance, List.drop_left]

theorem reads_bool (v : Bool) : Reads readBool (if v then ascii "true" else ascii "false") v := by
  cases v <;> exact fun _ _ => rfl

/-! ## Strings -/

/-- What is written for a symbol of a string. -/
def escapedSymbol (b : UInt8) : List UInt8 :=
  match StringEscapeMapping.find? fun m => m.1 = [b] with
  | some m => m.2
  | none => [b]

theorem isPrefixOf_singleton (a b : UInt8) (str : List UInt8) :
    [a].isPrefixOf (b :: str) = decide ([a] = [b]) := by
  simp [List.isPrefixOf, beq_eq_decide]

theorem find?_mapping (b : UInt8) (str : List UInt8) :
    StringEscapeMapping.find? (fun m => m.1.isPrefixOf (b :: str)) =
      StringEscapeMapping.find? fun m => m.1 = [b] := by
  have hfrom : ∀ m ∈ StringEscapeMapping, ∃ a, m.1 = [a] := by
    simp [StringEscapeMapping, ascii]
  have hcongr : ∀ ms : List (List UInt8 × List UInt8), (∀ m ∈ ms, ∃ a, m.1 = [a]) →
      ms.find? (fun m => m.1.isPrefixOf (b :: str)) = ms.find? fun m => m.1 = [b] := by
    intro ms
    induction ms with
    | nil => exact fun _ => rfl
    | cons m ms ih =>
      intro h
      obtain ⟨a, ha⟩ := h m List.mem_cons_self
      rw [List.find?_cons, List.find?_cons, ih fun m hm => h m (List.mem_cons_of_mem _ hm), ha,
        isPrefixOf_singleton]
  exact hcongr _ hfrom

theorem escape_cons (b : UInt8) (str : List UInt8) :
    escape (b :: str) = escapedSymbol b ++ escape str := by
  rw [escape, find?_mapping, escapedSymbol]
  cases StringEscapeMapping.find? fun m => m.1 = [b] <;> rfl

/-- A symbol that is not escaped is neither a delimiter nor an escape. -/
theorem ne_of_find?_eq_none {b : UInt8}
    (h : (StringEscapeMapping.find? fun m => m.1 = [b]) = none) : b ≠ 0x22 ∧ b ≠ 0x5C := by
  constructor
  · rintro rfl
    cases h
  · rintro rfl
    cases h

/-- The escape sequences are told apart by their two symbols. -/
theorem find?_escape {m : List UInt8 × List UInt8} (hm : m ∈ StringEscapeMapping)
    (rest : List UInt8) :
    StringEscapeMapping.find? (fun m' => m'.2.isPrefixOf (m.2 ++ rest)) = some m ∧
      stringEscape.isPrefixOf (m.2 ++ rest) = true ∧ ∃ c, m.2 = [0x5C, c] := by
  simp only [StringEscapeMapping, List.mem_cons, List.not_mem_nil, or_false] at hm
  rcases hm with rfl | rfl | rfl | rfl | rfl | rfl | rfl | rfl <;> exact ⟨rfl, rfl, _, rfl⟩

theorem escapedSymbol_cases (b : UInt8) :
    (∃ m ∈ StringEscapeMapping, m.1 = [b] ∧ escapedSymbol b = m.2) ∨
      (b ≠ 0x22 ∧ b ≠ 0x5C ∧ escapedSymbol b = [b]) := by
  rw [escapedSymbol]
  cases h : StringEscapeMapping.find? fun m => m.1 = [b] with
  | none => exact .inr ⟨(ne_of_find?_eq_none h).1, (ne_of_find?_eq_none h).2, rfl⟩
  | some m => exact .inl ⟨m, List.mem_of_find?_eq_some h, by simpa using List.find?_some h, rfl⟩

/-- A symbol that is no escape. -/
theorem reads_symbol {b : UInt8} (h : b ≠ 0x5C) (token : List UInt8) :
    Reads (readEscapedSymbol token) [b] (token ++ [b]) := by
  intro o rest
  have hnot : stringEscape.isPrefixOf (b :: rest) = false := by
    show ([0x5C] : List UInt8).isPrefixOf (b :: rest) = false
    rw [isPrefixOf_singleton]
    simp [h.symm]
  show StateT.run (if stringEscape.isPrefixOf (b :: rest) = true then _ else _) _ = _
  rw [hnot]
  rfl

/-- A symbol of an escaped string. -/
theorem reads_escapedSymbol (b : UInt8) (token : List UInt8) :
    Reads (readEscapedSymbol token) (escapedSymbol b) (token ++ [b]) := by
  obtain ⟨m, hm, hfrom, hto⟩ | ⟨-, hescape, hto⟩ := escapedSymbol_cases b
  · intro o rest
    obtain ⟨hfind, hprefix, c, hc⟩ := find?_escape hm rest
    rw [hto]
    rw [hc] at hfind hprefix ⊢
    rw [readEscapedSymbol, run_input_bind]
    show StateT.run (if stringEscape.isPrefixOf ([0x5C, c] ++ rest) = true then _ else _) _ = _
    rw [if_pos hprefix, hfind]
    dsimp only
    rw [hfrom, hc]
    rfl
  · rw [hto]
    exact reads_symbol hescape token

/-- A string between delimiters, symbol by symbol. -/
theorem reads_delimited {symbol : List UInt8 → ReadText (List UInt8)} {sym : UInt8 → List UInt8}
    {str : List UInt8} (h : ∀ b ∈ str, ∀ token, Reads (symbol token) (sym b) (token ++ [b]))
    (hhead : ∀ b ∈ str, ∃ c w, sym b = c :: w ∧ c ≠ 0x22) :
    Reads (readDelimited symbol) (stringDelimiter ++ (str.flatMap sym ++ stringDelimiter)) str := by
  have hrounds : ∀ (str token : List UInt8), (∀ b ∈ str, ∀ token, Reads (symbol token) (sym b)
      (token ++ [b])) → (∀ b ∈ str, ∃ c w, sym b = c :: w ∧ c ≠ 0x22) →
      Rounds (fun _ => True) (tryConsumeToken stringDelimiter) symbol token
        (str.flatMap sym ++ stringDelimiter) (token ++ str) := by
    intro str
    induction str with
    | nil =>
      intro token _ _
      rw [List.append_nil]
      exact .stop (reads_token _).before
    | cons b str ih =>
      intro token h hhead
      have hrest := ih (token ++ [b]) (fun b hb => h b (List.mem_cons_of_mem _ hb))
        (fun b hb => hhead b (List.mem_cons_of_mem _ hb))
      obtain ⟨c, w, hsym, hc⟩ := hhead b List.mem_cons_self
      rw [List.append_assoc] at hrest
      rw [List.flatMap_cons, List.append_assoc]
      show Rounds _ _ _ _ ([] ++ (sym b ++ (str.flatMap sym ++ stringDelimiter))) _
      refine Rounds.round (readsBefore_no_token _) (fun rest _ => ?_)
        ((h b List.mem_cons_self token).before (P := fun _ => True)) (fun _ _ => trivial) ?_ hrest
      · rw [hsym]
        rintro ⟨t, ht⟩
        exact hc (List.cons.inj ht).1.symm
      · rw [hsym]
        exact List.cons_ne_nil c w
  have hread : ReadsBefore (fun _ => True) (readDelimited symbol)
      (stringDelimiter ++ (str.flatMap sym ++ stringDelimiter)) str := by
    refine ReadsBefore.bind (P := fun _ => True)
      (reads_consumeTokenAfterWhitespace blank_nil rfl []).before (fun _ _ => trivial) ?_
    exact (hrounds str [] h hhead).readsBefore
  exact fun o rest => hread o rest trivial

theorem escape_eq (str : List UInt8) : escape str = str.flatMap escapedSymbol := by
  induction str with
  | nil => rfl
  | cons b str ih => rw [escape_cons, ih, List.flatMap_cons]

/-- **Strings of any symbols** are read as they were written. -/
theorem reads_escaped (str : List UInt8) :
    Reads (readDelimited readEscapedSymbol) (stringDelimiter ++ (escape str ++ stringDelimiter)) str := by
  rw [escape_eq]
  refine reads_delimited (fun b _ token => reads_escapedSymbol b token) fun b _ => ?_
  obtain ⟨m, hm, -, hto⟩ | ⟨hdelimiter, -, hto⟩ := escapedSymbol_cases b
  · obtain ⟨-, -, c, hc⟩ := find?_escape hm []
    exact ⟨0x5C, [c], hto.trans hc, by decide⟩
  · exact ⟨b, [], hto, hdelimiter⟩

theorem beforeDelimiter_append {str : List UInt8} (h : 0x22 ∉ str) (rest : List UInt8) :
    beforeDelimiter (str ++ (stringDelimiter ++ rest)) = some str := by
  induction str with
  | nil => rfl
  | cons b str ih =>
    obtain ⟨hb, hstr⟩ := not_or.mp (mt List.mem_cons.mpr h)
    have hprefix : ¬stringDelimiter.isPrefixOf (b :: (str ++ (stringDelimiter ++ rest))) = true := by
      rw [List.isPrefixOf_iff_prefix]
      exact fun hdelimiter => hb (List.cons_prefix_cons.mp hdelimiter).1
    rw [List.cons_append, beforeDelimiter, if_neg hprefix, ih hstr]
    rfl

/-- Texts without a delimiter. -/
theorem reads_quoted {str : List UInt8} (h : 0x22 ∉ str) :
    Reads readQuoted (stringDelimiter ++ (str ++ stringDelimiter)) str := by
  refine (reads_consumeTokenAfterWhitespace blank_nil rfl []).bind fun o rest => ?_
  rw [run_input_bind]
  dsimp only
  rw [List.append_assoc, beforeDelimiter_append h]
  have hend : (⟨o, str ++ (stringDelimiter ++ rest)⟩ : Cursor UInt8).advance
      (str.length + stringDelimiter.length) = ⟨o + (str ++ stringDelimiter).length, rest⟩ := by
    rw [← List.length_append, Cursor.advance, ← List.append_assoc, List.drop_left]
  show Except.ok (str, Cursor.advance _ _) = _
  rw [hend]

/-- Texts in which nothing is escaped. -/
theorem reads_unescaped {str : List UInt8} (hdelimiter : 0x22 ∉ str) (hescape : 0x5C ∉ str) :
    Reads (readDelimited readEscapedSymbol) (stringDelimiter ++ (str ++ stringDelimiter)) str := by
  have hread : Reads (readDelimited readEscapedSymbol)
      (stringDelimiter ++ (str.flatMap (fun b => [b]) ++ stringDelimiter)) str :=
    reads_delimited (fun b hb token => reads_symbol (fun hb' => hescape (hb' ▸ hb)) token)
      fun b hb => ⟨b, [], rfl, fun hb' => hdelimiter (hb' ▸ hb)⟩
  rwa [List.flatMap_singleton'] at hread

/-! ## Names -/

/-- A name of letters, digits and underscores. -/
def IsIdentifier (name : String) : Prop := ∀ c ∈ name.toList, c.isAlphanum = true ∨ c = '_'

instance (name : String) : Decidable (IsIdentifier name) := List.decidableBAll _ _

theorem toNat_of_isAlphanum {c : Char} (h : c.isAlphanum = true ∨ c = '_') :
    (0x30 ≤ c.toNat ∧ c.toNat ≤ 0x39) ∨ (0x41 ≤ c.toNat ∧ c.toNat ≤ 0x5A) ∨
      (0x61 ≤ c.toNat ∧ c.toNat ≤ 0x7A) ∨ c.toNat = 0x5F := by
  rcases h with h | rfl
  · change ((decide (c.val ≥ 'A'.val ∧ c.val ≤ 'Z'.val) ||
      (decide (c.val ≥ 'a'.val) && decide (c.val ≤ 'z'.val))) ||
      (decide (c.val ≥ '0'.val) && decide (c.val ≤ '9'.val))) = true at h
    simp only [ge_iff_le, UInt32.le_iff_toNat_le, Bool.or_eq_true, Bool.and_eq_true,
      decide_eq_true_eq] at h
    have hA : 'A'.val.toNat = 0x41 := rfl
    have hZ : 'Z'.val.toNat = 0x5A := rfl
    have ha : 'a'.val.toNat = 0x61 := rfl
    have hz : 'z'.val.toNat = 0x7A := rfl
    have h0 : '0'.val.toNat = 0x30 := rfl
    have h9 : '9'.val.toNat = 0x39 := rfl
    have hc : c.toNat = c.val.toNat := rfl
    omega
  · right; right; right; rfl

theorem toNat_ofNat_toNat {c : Char} (h : c.isAlphanum = true ∨ c = '_') :
    (UInt8.ofNat c.toNat).toNat = c.toNat := by
  have hnat := toNat_of_isAlphanum h
  have hlt : c.toNat < 256 := by omega
  exact UInt8.toNat_ofNat_of_lt hlt

theorem isIdentifierSymbol_of_mem {name : String} (h : IsIdentifier name) {b : UInt8}
    (hb : b ∈ ascii name) : isIdentifierSymbol b = true := by
  obtain ⟨c, hc, rfl⟩ := List.mem_map.mp hb
  simp only [isIdentifierSymbol, UInt8.le_iff_toNat_le, ← UInt8.toNat_inj,
    toNat_ofNat_toNat (h c hc), decide_eq_true_eq]
  exact toNat_of_isAlphanum (h c hc)

/-- Identifiers with the same symbols are the same. -/
theorem ascii_injOn {name name' : String} (h : IsIdentifier name) (h' : IsIdentifier name')
    (heq : ascii name = ascii name') : name = name' := by
  have hinj : ∀ cs cs' : List Char, (∀ c ∈ cs, c.isAlphanum = true ∨ c = '_') →
      (∀ c ∈ cs', c.isAlphanum = true ∨ c = '_') →
      cs.map (fun c => UInt8.ofNat c.toNat) = cs'.map (fun c => UInt8.ofNat c.toNat) → cs = cs' := by
    intro cs
    induction cs with
    | nil =>
      intro cs' _ _ h
      exact (List.map_eq_nil_iff.mp h.symm).symm
    | cons c cs ih =>
      rintro (_ | ⟨c', cs'⟩) hcs hcs' h
      · cases h
      · simp only [List.map_cons, List.cons.injEq] at h
        have hnat := congrArg UInt8.toNat h.1
        rw [toNat_ofNat_toNat (hcs c List.mem_cons_self),
          toNat_ofNat_toNat (hcs' c' List.mem_cons_self)] at hnat
        rw [Char.toNat_inj.mp hnat, ih cs' (fun c hc => hcs c (List.mem_cons_of_mem _ hc))
          (fun c hc => hcs' c (List.mem_cons_of_mem _ hc)) h.2]
  exact String.toList_inj.mp (hinj _ _ h h' heq)

/-- A name ends here. -/
def IdentifierEnd (rest : List UInt8) : Prop :=
  ∀ b ∈ rest.head?, isIdentifierSymbol b = false ∧ b < 0x80

/-- An identifier before the end of a name. -/
theorem readsBefore_identifier {name : String} (h : IsIdentifier name) :
    ReadsBefore IdentifierEnd identifier (ascii name) (ascii name) := by
  intro o rest hrest
  have htake : (ascii name ++ rest).takeWhile isIdentifierSymbol = ascii name := by
    rw [List.takeWhile_append_of_pos fun b hb => isIdentifierSymbol_of_mem h hb]
    cases rest with
    | nil => simp
    | cons b t => simp [(hrest b rfl).1]
  rw [StateT.run, identifier]
  dsimp only
  rw [htake, List.drop_left]
  cases rest with
  | nil =>
    show Except.ok (ascii name, _) = _
    rw [Cursor.advance, List.drop_left]
  | cons b t =>
    show (if (0x80 : UInt8) ≤ b then _ else _) = _
    rw [if_neg (UInt8.not_le.mpr (hrest b rfl).2)]
    show Except.ok (ascii name, _) = _
    rw [Cursor.advance, List.drop_left]

end TextReader

end Dots
