import Mathlib.Data.Nat.Bitwise

/-!
# Writing CBOR items

* `CborFormat`: the initial byte of an item is a major type and an additional information, which
  holds the argument of the item up to 23, or says how many bytes it takes.
* `CborWriter`: the items of the `write` functions. Writing appends, so each function is given as
  the bytes that it appends.
-/

set_option autoImplicit false

namespace Dots

namespace CborFormat

namespace MajorType

def unsignedInt : UInt8 := 0x00
def signedInt : UInt8 := 0x20
def byteString : UInt8 := 0x40
def textString : UInt8 := 0x60
def array : UInt8 := 0x80
def map : UInt8 := 0xA0
def simpleOrFloat : UInt8 := 0xE0
def mask : UInt8 := 0xE0

end MajorType

namespace AdditionalInformation

def maxInplaceValue : UInt8 := 23
def followingBytes1 : UInt8 := 24
def followingBytes2 : UInt8 := 25
def followingBytes4 : UInt8 := 26
def followingBytes8 : UInt8 := 27
def mask : UInt8 := 0x1F

end AdditionalInformation

namespace SimpleValue

def false : UInt8 := 20
def true : UInt8 := 21

end SimpleValue

end CborFormat

namespace CborWriter

open CborFormat

variable {w : ℕ}

/-- The bytes `value >> i * 8` for `i` from `numBytes - 1` down to zero. -/
def writeContingentBytes (value : ℕ) : (numBytes : ℕ) → List UInt8
  | 0 => []
  | i + 1 => UInt8.ofNat (value >>> (i * 8)) :: writeContingentBytes value i

/-- The argument of an item in the fewest bytes. -/
def writeHead (majorType : UInt8) (value : BitVec 64) : List UInt8 :=
  if value.toNat ≤ AdditionalInformation.maxInplaceValue.toNat then
    [majorType ||| UInt8.ofNat value.toNat]
  else
    let numBytesExponent := (decide (value.toNat > 0xFFFFFFFF)).toNat +
      (decide (value.toNat > 0xFFFF)).toNat + (decide (value.toNat > 0xFF)).toNat
    (majorType ||| (AdditionalInformation.followingBytes1 + UInt8.ofNat numBytesExponent)) ::
      writeContingentBytes value.toNat (1 <<< numBytesExponent)

def writeArraySize (size : ℕ) : List UInt8 := writeHead MajorType.array (BitVec.ofNat 64 size)

def writeMapSize (size : ℕ) : List UInt8 := writeHead MajorType.map (BitVec.ofNat 64 size)

/-- `write` of the unsigned types. -/
def writeUnsigned (value : BitVec w) : List UInt8 :=
  writeHead MajorType.unsignedInt (value.setWidth 64)

/-- `write` of the signed types. -/
def writeSigned (value : BitVec w) : List UInt8 :=
  if 0 ≤ value.toInt then writeHead MajorType.unsignedInt (value.signExtend 64)
  else writeHead MajorType.signedInt (-1 - value.signExtend 64)

/-- `write` of an array of bytes. -/
def writeBytes (bytes : List UInt8) : List UInt8 :=
  writeHead MajorType.byteString (BitVec.ofNat 64 bytes.length) ++ bytes

def writeString (str : List UInt8) : List UInt8 :=
  writeHead MajorType.textString (BitVec.ofNat 64 str.length) ++ str

def writeBool (value : Bool) : List UInt8 :=
  [MajorType.simpleOrFloat ||| (if value then SimpleValue.true else SimpleValue.false)]

/-- `write` of a `float`. -/
def writeFloat32 (value : BitVec 32) : List UInt8 :=
  (MajorType.simpleOrFloat ||| AdditionalInformation.followingBytes4) ::
    writeContingentBytes value.toNat 4

/-- `write` of a `double`. -/
def writeFloat64 (value : BitVec 64) : List UInt8 :=
  (MajorType.simpleOrFloat ||| AdditionalInformation.followingBytes8) ::
    writeContingentBytes value.toNat 8

end CborWriter

end Dots
