import Dots.Text.RoundTrip

/-!
# The texts of digests

A digest is made from the text that a client sends. The conversion of the text is that of another
library, which writes through an iterator without a bound.

* `HexAlgorithms`: that conversion; `hexPairs`: what it writes.
* `Digest.ofString`: the digest of a text, with what is written behind its value.
* `Digest.ParsesExactly`, **`Digest.parsesExactly_iff`**: the texts that are read exactly.
-/

set_option autoImplicit false

namespace Dots

open Json

/-! ## Conversions -/

/-- `boost::algorithm::unhex` and `hex_lower`. The first one returns what it writes, and whether it
ends without an exception. -/
structure HexAlgorithms where
  unhex : List UInt8 → List UInt8 × Bool
  hexLower : List UInt8 → List UInt8

/-- The bytes of the pairs of digits at the front of a text. -/
def hexPairs : List UInt8 → List UInt8
  | b :: c :: str =>
    match symbolDigit 16 b, symbolDigit 16 c with
    | some high, some low => UInt8.ofNat (high * 16 + low) :: hexPairs str
    | _, _ => []
  | _ => []

/-- A text of hexadecimal digits only. -/
def IsHex (str : List UInt8) : Prop := ∀ b ∈ str, (symbolDigit 16 b).isSome

instance (str : List UInt8) : Decidable (IsHex str) := inferInstanceAs (Decidable (∀ b ∈ str, _))

/-- One byte is written for two digits; an odd number of symbols and a symbol that is no digit end
with an exception. -/
structure HexAlgorithms.Documented (h : HexAlgorithms) : Prop where
  writes (str : List UInt8) : (h.unhex str).1 = hexPairs str
  ends (str : List UInt8) : (h.unhex str).2 = true ↔ IsHex str ∧ Even str.length
  hexLower (bytes : List UInt8) : h.hexLower bytes = hexadecimal bytes

/-! ## Digests -/

structure Digest where
  value : List UInt8
  length_value : value.length = 32
  deriving DecidableEq

/-- A digest, unless an exception is thrown, and the bytes that are written behind its value. -/
structure Digest.Construction where
  digest : Option Digest
  outside : List UInt8
  deriving DecidableEq

/-- `Digest::Digest` of a text. -/
def Digest.ofString (h : HexAlgorithms) (stringValue : List UInt8) : Digest.Construction :=
  let written := (h.unhex stringValue).1
  let digest : Digest :=
    { value := written.take 32 ++ List.replicate (32 - written.length) 0
      length_value := by
        rw [List.length_append, List.length_take, List.length_replicate]
        omega }
  { digest := if (h.unhex stringValue).2 then some digest else none
    outside := written.drop 32 }

def Digest.toString (h : HexAlgorithms) (d : Digest) : List UInt8 := h.hexLower d.value

/-- A text that is not refused consists of 64 hexadecimal digits, the digest has the bytes that they
denote, and nothing is written behind them. -/
def Digest.ParsesExactly (h : HexAlgorithms) (str : List UInt8) : Prop :=
  ∀ d, (Digest.ofString h str).digest = some d →
    str.length = 64 ∧ IsHex str ∧ bytesOfHexadecimal str = some d.value ∧
      (Digest.ofString h str).outside = []

/-- A symbol in lower case. -/
def lowerSymbol (b : UInt8) : UInt8 := if 0x41 ≤ b ∧ b ≤ 0x5A then b + 0x20 else b

variable {h : HexAlgorithms} {str : List UInt8}

/-! ## Pairs of digits -/

theorem bytesOfHexadecimal_of_isHex : ∀ {str : List UInt8}, IsHex str → Even str.length →
    bytesOfHexadecimal str = some (hexPairs str) ∧ 2 * (hexPairs str).length = str.length
  | [], _, _ => ⟨rfl, rfl⟩
  | [_], _, heven => absurd heven Nat.not_even_one
  | b :: c :: str, hhex, heven => by
    obtain ⟨high, hhigh⟩ := Option.isSome_iff_exists.mp (hhex b (by simp))
    obtain ⟨low, hlow⟩ := Option.isSome_iff_exists.mp (hhex c (by simp))
    have hrest : IsHex str := fun d hd => hhex d (by simp [hd])
    have hlength : Even str.length := by
      rw [List.length_cons, List.length_cons, Nat.add_assoc] at heven
      exact (Nat.even_add.mp heven).mpr even_two
    obtain ⟨hbytes, hpairs⟩ := bytesOfHexadecimal_of_isHex hrest hlength
    rw [bytesOfHexadecimal, hexPairs, hhigh, hlow, hbytes]
    refine ⟨rfl, ?_⟩
    rw [List.length_cons, List.length_cons, List.length_cons]
    omega

/-- The digits of bytes are read as the bytes, and nothing else is written. -/
theorem isHex_hexadecimal (bytes : List UInt8) :
    IsHex (hexadecimal bytes) ∧ (hexadecimal bytes).length = 2 * bytes.length := by
  induction bytes with
  | nil => exact ⟨fun b hb => absurd hb List.not_mem_nil, rfl⟩
  | cons b bytes ih =>
    have hb := UInt8.toNat_lt b
    have hhigh := (symbolDigit_hexadecimal (d := b.toNat / 16) (by omega)).1
    have hlow := (symbolDigit_hexadecimal (d := b.toNat % 16) (by omega)).1
    have hcons : hexadecimal (b :: bytes) =
        digitSymbol (b.toNat / 16) :: digitSymbol (b.toNat % 16) :: hexadecimal bytes := rfl
    rw [hcons]
    refine ⟨?_, by simp only [List.length_cons, ih.2]; omega⟩
    intro c hc
    rcases List.mem_cons.mp hc with rfl | hc
    · rw [hhigh]
      rfl
    · rcases List.mem_cons.mp hc with rfl | hc
      · rw [hlow]
        rfl
      · exact ih.1 c hc

/-- Digits, in lower case, are those of the bytes that they denote. -/
theorem hexadecimal_hexPairs : ∀ {str : List UInt8}, IsHex str → Even str.length →
    hexadecimal (hexPairs str) = str.map lowerSymbol
  | [], _, _ => rfl
  | [_], _, heven => absurd heven Nat.not_even_one
  | b :: c :: str, hhex, heven => by
    have hsymbol : ∀ b : UInt8, ∀ d, symbolDigit 16 b = some d →
        d < 16 ∧ digitSymbol d = lowerSymbol b := by
      have hall : ∀ n < 256, (symbolDigit 16 (UInt8.ofNat n)).all fun d =>
          d < 16 ∧ digitSymbol d = lowerSymbol (UInt8.ofNat n) := by decide +kernel
      intro b d hd
      have hb := hall b.toNat (UInt8.toNat_lt b)
      rw [UInt8.ofNat_toNat, hd] at hb
      simpa using hb
    obtain ⟨high, hhigh⟩ := Option.isSome_iff_exists.mp (hhex b (by simp))
    obtain ⟨low, hlow⟩ := Option.isSome_iff_exists.mp (hhex c (by simp))
    have hrest : IsHex str := fun d hd => hhex d (by simp [hd])
    have hlength : Even str.length := by
      rw [List.length_cons, List.length_cons, Nat.add_assoc] at heven
      exact (Nat.even_add.mp heven).mpr even_two
    obtain ⟨hhighlt, hhighsymbol⟩ := hsymbol b high hhigh
    obtain ⟨hlowlt, hlowsymbol⟩ := hsymbol c low hlow
    have hbyte : (UInt8.ofNat (high * 16 + low)).toNat = high * 16 + low :=
      UInt8.toNat_ofNat_of_lt (by show _ < 2 ^ 8; omega)
    have hpairs : hexPairs (b :: c :: str) = UInt8.ofNat (high * 16 + low) :: hexPairs str := by
      rw [hexPairs, hhigh, hlow]
    rw [hpairs]
    show digitSymbol ((UInt8.ofNat (high * 16 + low)).toNat / 16) ::
      digitSymbol ((UInt8.ofNat (high * 16 + low)).toNat % 16) :: hexadecimal (hexPairs str) = _
    rw [hbyte, hexadecimal_hexPairs hrest hlength, show (high * 16 + low) / 16 = high by omega,
      show (high * 16 + low) % 16 = low by omega, hhighsymbol, hlowsymbol]
    rfl

/-! ## Parsing -/

/-- The digest of 64 digits has the bytes that they denote; nothing is written behind it. -/
theorem Digest.ofString_of_isHex (hdoc : h.Documented) (hlength : str.length = 64)
    (hhex : IsHex str) :
    ∃ d, Digest.ofString h str = { digest := some d, outside := [] } ∧ d.value = hexPairs str := by
  have heven : Even str.length := hlength ▸ ⟨32, rfl⟩
  have hpairs : (hexPairs str).length = 32 := by
    have htwice := (bytesOfHexadecimal_of_isHex hhex heven).2
    omega
  have hends : (h.unhex str).2 = true := (hdoc.ends str).mpr ⟨hhex, heven⟩
  have hvalue : (h.unhex str).1.take 32 ++ List.replicate (32 - (h.unhex str).1.length) 0 =
      hexPairs str := by
    rw [hdoc.writes, hpairs, Nat.sub_self, List.replicate_zero, List.append_nil,
      List.take_of_length_le hpairs.le]
  have houtside : (h.unhex str).1.drop 32 = [] := by
    rw [hdoc.writes, List.drop_eq_nil_of_le hpairs.le]
  refine ⟨⟨hexPairs str, hpairs⟩, ?_, rfl⟩
  rw [Digest.ofString, houtside, if_pos hends]
  exact congrArg (fun d => Construction.mk (some d) []) ((Digest.mk.injEq ..).mpr hvalue)

/-- A digest is the one of its own text. -/
theorem Digest.ofString_toString (hdoc : h.Documented) (d : Digest) :
    Digest.ofString h (d.toString h) = { digest := some d, outside := [] } := by
  obtain ⟨hhex, hlength⟩ := isHex_hexadecimal d.value
  have htext : d.toString h = hexadecimal d.value := hdoc.hexLower d.value
  have heven : Even (hexadecimal d.value).length := hlength ▸ even_two_mul _
  have hbytes := (bytesOfHexadecimal_of_isHex hhex heven).1
  rw [bytesOfHexadecimal_hexadecimal, Option.some_inj] at hbytes
  rw [htext]
  obtain ⟨d', hd', hvalue⟩ := Digest.ofString_of_isHex hdoc
    (by rw [hlength, d.length_value]) hhex
  have hsame : d' = d := by
    cases d'
    cases d
    exact (Digest.mk.injEq ..).mpr (hvalue.trans hbytes.symm)
  rw [hd', hsame]

/-- **The text of the digest of 64 digits those digits in lower case.** -/
theorem Digest.toString_ofString (hdoc : h.Documented) (hlength : str.length = 64)
    (hhex : IsHex str) :
    ∃ d, Digest.ofString h str = { digest := some d, outside := [] } ∧
      d.toString h = str.map lowerSymbol := by
  have heven : Even str.length := hlength ▸ ⟨32, rfl⟩
  obtain ⟨d, hd, hvalue⟩ := Digest.ofString_of_isHex hdoc hlength hhex
  refine ⟨d, hd, ?_⟩
  rw [Digest.toString, hdoc.hexLower, hvalue, hexadecimal_hexPairs hhex heven]

/-- A text of digits only is never refused for its length. -/
theorem Digest.parsesExactly_of (hdoc : h.Documented) :
    Digest.ParsesExactly h str ↔ ¬(IsHex str ∧ Even str.length ∧ str.length ≠ 64) := by
  constructor
  · rintro hparses ⟨hhex, heven, hlength⟩
    have hends : (h.unhex str).2 = true := (hdoc.ends str).mpr ⟨hhex, heven⟩
    exact hlength (hparses _ (if_pos hends)).1
  · intro hgood d hd
    have hends : (h.unhex str).2 = true := by
      by_contra hfalse
      simp [Digest.ofString, hfalse] at hd
    obtain ⟨hhex, heven⟩ := (hdoc.ends str).mp hends
    have hlength : str.length = 64 := by
      by_contra hne
      exact hgood ⟨hhex, heven, hne⟩
    obtain ⟨d', hd', hvalue⟩ := Digest.ofString_of_isHex hdoc hlength hhex
    rw [hd', Option.some_inj] at hd
    subst hd
    rw [hvalue, hd']
    exact ⟨hlength, hhex, (bytesOfHexadecimal_of_isHex hhex heven).1, rfl⟩

/-- The conversions as they are documented. -/
def HexAlgorithms.documented : HexAlgorithms :=
  { unhex := fun str => (hexPairs str, decide (IsHex str ∧ Even str.length))
    hexLower := hexadecimal }

theorem HexAlgorithms.documented_documented : HexAlgorithms.documented.Documented where
  writes _ := rfl
  ends _ := decide_eq_true_iff
  hexLower _ := rfl

end Dots
