import Dots.Type.Value

/-!
# Text formats

* `TextOptions`, `TextFormat`: the tokens and choices of a format; `JsonFormat`, `StringFormat`.
* `StringEscapeMapping`: the characters that are escaped.
* `toChars`, `fromChars`: integers as digits.
* `Converters`: the conversions of floating-point values, times and uuids that other libraries do.
-/

set_option autoImplicit false

namespace Dots

namespace TextOptions

inductive Policy
  | relaxed
  | strict
  deriving DecidableEq

inductive Style
  | minified
  | singleLine
  | multiLine
  deriving DecidableEq

end TextOptions

structure TextOptions where
  style : TextOptions.Style := .singleLine
  policy : TextOptions.Policy := .relaxed
  indentSize : ℕ := 4

/-! ## Formats -/

/-- The bytes of an ASCII text. -/
def ascii (s : String) : List UInt8 := s.toList.map fun c => UInt8.ofNat c.toNat

inductive ObjectFormat
  | withoutTypeName
  | withTypeName
  deriving DecidableEq

inductive IntegerFormat
  | withoutSignSuffix
  | withSignSuffix
  deriving DecidableEq

inductive FloatFormat
  | withoutSizeSuffix
  | withSizeSuffix
  deriving DecidableEq

inductive PropertySetFormat
  | decimalValue
  | binaryValue
  deriving DecidableEq

inductive TimepointFormat
  | fractionalSeconds
  | iso8601String
  deriving DecidableEq

inductive EnumFormat
  | tag
  | identifier
  deriving DecidableEq

/-- The constants of a format and of its serializer. -/
structure TextFormat where
  objectBegin : List UInt8
  objectEnd : List UInt8
  objectMemberNameBegin : List UInt8
  objectMemberNameEnd : List UInt8
  objectMemberValueBegin : List UInt8
  objectMemberValueEnd : List UInt8
  arrayBegin : List UInt8
  arrayElementSeparator : List UInt8
  arrayEnd : List UInt8
  nullValue : List UInt8
  objectFormat : ObjectFormat
  integerFormat : IntegerFormat
  floatFormat : FloatFormat
  propertySetFormat : PropertySetFormat
  timepointFormat : TimepointFormat
  enumFormat : EnumFormat

def JsonFormat : TextFormat where
  objectBegin := ascii "\x7b"
  objectEnd := ascii "\x7d"
  objectMemberNameBegin := ascii "\""
  objectMemberNameEnd := ascii "\":"
  objectMemberValueBegin := ascii ""
  objectMemberValueEnd := ascii ","
  arrayBegin := ascii "["
  arrayElementSeparator := ascii ","
  arrayEnd := ascii "]"
  nullValue := ascii "null"
  objectFormat := .withoutTypeName
  integerFormat := .withoutSignSuffix
  floatFormat := .withoutSizeSuffix
  propertySetFormat := .decimalValue
  timepointFormat := .fractionalSeconds
  enumFormat := .tag

def StringFormat : TextFormat where
  objectBegin := ascii "\x7b"
  objectEnd := ascii "\x7d"
  objectMemberNameBegin := ascii "."
  objectMemberNameEnd := ascii ""
  objectMemberValueBegin := ascii "="
  objectMemberValueEnd := ascii ","
  arrayBegin := ascii "\x7b"
  arrayElementSeparator := ascii ","
  arrayEnd := ascii "\x7d"
  nullValue := ascii "<invalid>"
  objectFormat := .withTypeName
  integerFormat := .withSignSuffix
  floatFormat := .withSizeSuffix
  propertySetFormat := .binaryValue
  timepointFormat := .iso8601String
  enumFormat := .identifier

/-- `StringDelimiter`. -/
def stringDelimiter : List UInt8 := ascii "\""

/-- `StringEscape`. -/
def stringEscape : List UInt8 := ascii "\\"

/-- `StringEscapeMapping`. -/
def StringEscapeMapping : List (List UInt8 × List UInt8) :=
  [(ascii "\"", ascii "\\\""), (ascii "\\", ascii "\\\\"), (ascii "/", ascii "\\/"),
    ([0x08], ascii "\\b"), ([0x0C], ascii "\\f"), ([0x0A], ascii "\\n"), ([0x0D], ascii "\\r"),
    ([0x09], ascii "\\t")]

/-! ## Integers -/

/-- The digits of a number, the most significant one first. -/
def toDigits (base : ℕ) : (fuel : ℕ) → ℕ → List ℕ
  | 0, _ => []
  | fuel + 1, n => if n < base then [n] else toDigits base fuel (n / base) ++ [n % base]

/-- The symbol of a digit. -/
def digitSymbol (d : ℕ) : UInt8 := UInt8.ofNat (if d < 10 then 0x30 + d else 0x57 + d)

/-- The digit of a symbol. -/
def symbolDigit (base : ℕ) (b : UInt8) : Option ℕ :=
  let d := if 0x30 ≤ b ∧ b ≤ 0x39 then some (b.toNat - 0x30)
    else if 0x61 ≤ b ∧ b ≤ 0x7A then some (b.toNat - 0x57)
    else if 0x41 ≤ b ∧ b ≤ 0x5A then some (b.toNat - 0x37)
    else none
  d.filter (· < base)

/-- `std::to_chars` of an integer of at most 64 bits. -/
def toChars (base : ℕ) (value : ℤ) : List UInt8 :=
  (if value < 0 then ascii "-" else []) ++ (toDigits base 64 value.natAbs).map digitSymbol

/-- The digits at the front of an input. -/
def leadingDigits (base : ℕ) : List UInt8 → List ℕ
  | [] => []
  | b :: w =>
    match symbolDigit base b with
    | some d => d :: leadingDigits base w
    | none => []

/-- The number with the digits `ds`. -/
def ofDigits (base : ℕ) (ds : List ℕ) : ℕ := ds.foldl (fun n d => n * base + d) 0

/-- `std::from_chars` of an unsigned integer of `w` bits, with the number of symbols it takes. -/
def fromCharsUnsigned (w base : ℕ) (input : List UInt8) : Option (BitVec w × ℕ) :=
  let ds := leadingDigits base input
  if ds = [] ∨ 2 ^ w ≤ ofDigits base ds then none
  else some (BitVec.ofNat w (ofDigits base ds), ds.length)

/-- `std::from_chars` of a signed integer. -/
def fromCharsSigned (w base : ℕ) (input : List UInt8) : Option (BitVec w × ℕ) :=
  let negative := (ascii "-").isPrefixOf input
  let ds := leadingDigits base (if negative then input.drop 1 else input)
  let value : ℤ := if negative then -ofDigits base ds else ofDigits base ds
  if ds = [] ∨ value < -2 ^ (w - 1) ∨ 2 ^ (w - 1) ≤ value then none
  else some (BitVec.ofInt w value, ds.length + negative.toNat)

/-! ## Conversions of other libraries -/

/-- The texts of floating-point values, times and uuids. The functions that read a number return
the number of symbols they take, which is 0 if there is no number. -/
structure Converters where
  /-- What `std::ostringstream` writes for a `float`. -/
  float32Text : BitVec 32 → List UInt8
  float64Text : BitVec 64 → List UInt8
  strtof : List UInt8 → BitVec 32 × ℕ
  strtod : List UInt8 → BitVec 64 × ℕ
  /-- `timepoint_t::toString`. -/
  timepointText : BitVec 64 → List UInt8
  /-- `timepoint_t::FromString`. -/
  timepointFromString : List UInt8 → Option (BitVec 64)
  /-- `boost::uuids::to_string`. -/
  uuidText : FundamentalType.Value .uuid → List UInt8
  /-- `boost::uuids::string_generator`. -/
  uuidFromString : List UInt8 → Option (FundamentalType.Value .uuid)

end Dots
