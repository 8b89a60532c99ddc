import Dots.Cbor.Head

/-!
# CBOR integers and the integer types

* `IntegerItem`: a sign and an argument in a head of any width, canonical or not.
* `IntegerType`: the signed and the unsigned types of one, two, four and eight bytes.
* **`reads_item`**: what a type reads from an item is the number of the item modulo the size of the
  type, as long as the head is not wider than the type.
* **`read_integer`**: a number that the type can represent is read as it is, a wider head and a
  negative number for an unsigned type are refused, and what is written is read back.
-/

set_option autoImplicit false

namespace Dots

open CborFormat CborWriter CborReader Parse

/-- The argument of an item, in the initial byte or in one, two, four or eight bytes behind it. -/
inductive Argument
  | inPlace (value : Fin 24)
  | following (exponent : Fin 4) (value : BitVec (8 * 2 ^ exponent.val))

namespace Argument

/-- The number of bytes behind the initial byte. -/
def numBytes : Argument → ℕ
  | .inPlace _ => 0
  | .following e _ => 2 ^ e.val

def toNat : Argument → ℕ
  | .inPlace i => i.val
  | .following _ x => x.toNat

/-- The head with this argument. -/
def head (majorType : UInt8) : Argument → List UInt8
  | .inPlace i => [majorType ||| UInt8.ofNat i]
  | .following e x =>
    (majorType ||| UInt8.ofNat (24 + e)) :: writeContingentBytes x.toNat (2 ^ e.val)

end Argument

structure IntegerItem where
  negative : Bool
  argument : Argument

namespace IntegerItem

def majorType (item : IntegerItem) : UInt8 :=
  if item.negative then MajorType.signedInt else MajorType.unsignedInt

def bytes (item : IntegerItem) : List UInt8 := item.argument.head item.majorType

/-- The number that an item stands for. -/
def value (item : IntegerItem) : ℤ :=
  if item.negative then -1 - item.argument.toNat else item.argument.toNat

end IntegerItem

/-- `int8_t`, `uint8_t` and so on: the size is a power of two, up to eight bytes. -/
structure IntegerType where
  signed : Bool
  exponent : Fin 4

namespace IntegerType

variable (type : IntegerType)

def size : ℕ := 2 ^ type.exponent.val

/-- The number that a value of the type is. -/
def toInt (v : BitVec (8 * type.size)) : ℤ := if type.signed then v.toInt else v.toNat

def Represents (z : ℤ) : Prop := ∃ v, type.toInt v = z

/-- `CborReader::read` of the type. -/
def read : Read (BitVec (8 * type.size)) :=
  if type.signed then readSigned type.size else readUnsigned type.size

/-- `CborWriter::write` of the type. -/
def write (v : BitVec (8 * type.size)) : List UInt8 :=
  if type.signed then writeSigned v else writeUnsigned v

variable {type}

/-- The number modulo the size of the type. -/
theorem ofInt_toInt (v : BitVec (8 * type.size)) : BitVec.ofInt _ (type.toInt v) = v := by
  unfold toInt
  split_ifs
  · exact BitVec.ofInt_toInt
  · rw [BitVec.ofInt_natCast, BitVec.ofNat_toNat, BitVec.setWidth_eq]

theorem Represents.toInt_ofInt {z : ℤ} (h : type.Represents z) :
    type.toInt (BitVec.ofInt _ z) = z := by
  obtain ⟨v, rfl⟩ := h
  rw [ofInt_toInt]

/-- An unsigned type has no negative number. -/
theorem Represents.not_negative {item : IntegerItem} (h : type.Represents item.value)
    (hsigned : type.signed = false) : item.negative = false := by
  obtain ⟨v, hv⟩ := h
  rw [toInt, hsigned, if_neg Bool.false_ne_true, IntegerItem.value] at hv
  split_ifs at hv with hneg
  · omega
  · exact Bool.not_eq_true _ ▸ hneg

end IntegerType

/-! ## Heads of any width -/

namespace CborReader

variable {m : UInt8} {size : ℕ} {arg : Argument}

theorem head_initialByte (hm : m ∈ MajorType.all) (arg : Argument) :
    ∃ a w, arg.head m = a :: w ∧ a &&& MajorType.mask = m := by
  cases arg with
  | inPlace i => exact ⟨_, _, rfl, (initialByte_parts m hm ⟨i, by omega⟩).1⟩
  | following e x => exact ⟨_, _, rfl, (initialByte_parts m hm ⟨24 + e, by omega⟩).1⟩

/-- **A head of any width** is read by a type that is not narrower. -/
theorem reads_head (hm : m ∈ MajorType.all) (harg : arg.numBytes ≤ size) :
    Reads (readHead size m) (arg.head m) (BitVec.ofNat (8 * size) arg.toNat) := by
  cases arg with
  | inPlace i =>
    refine (reads_readInitialByte_inplace hm (by omega)).bind (u := []) ?_
    simp only [if_pos (inplace i)]
    rw [UInt8.toNat_ofNat_of_lt' (by simp [UInt8.size]; omega)]
    exact .pure _
  | following e x =>
    refine reads_readInitialByte_following hm (by omega) harg
      (length_writeContingentBytes ..).ge ?_
    simp only [if_neg (following e).1]
    have hread := reads_readContingentBytes (8 * size) x.toNat (2 ^ e.val) 0
    rw [Nat.mod_eq_of_lt x.isLt] at hread
    have hzero : 0 ||| BitVec.ofNat (8 * size) x.toNat = BitVec.ofNat (8 * size) x.toNat :=
      BitVec.zero_or
    rwa [hzero] at hread

/-- A byte that is there is passed. -/
theorem run_assert_readByte {β : Type} (f : UInt8 → Read β) (o : ℕ) (a : UInt8) (w : List UInt8) :
    (do
      assertInputAvailable 1
      f (← readByte) : Read β).run ⟨o, a :: w⟩ = (f a).run ⟨o + 1, w⟩ := by
  have havail : ¬1 > (a :: w).length := by simp
  rw [StateT.run_bind, StateT.run, assertInputAvailable, if_neg havail]
  rfl

/-- An item of another major type is refused. -/
theorem readHead_of_ne {m' : UInt8} (arg : Argument) (hm : m ∈ MajorType.all) (hne : m ≠ m')
    (o : ℕ) (rest : List UInt8) : ∃ dumped, (readHead size m').run ⟨o, arg.head m ++ rest⟩ =
      .error (.thrown (.serializer (.unexpectedMajorType m' m) (o + 1) dumped)) := by
  obtain ⟨a, w, hw, ha⟩ := head_initialByte hm arg
  refine ⟨(⟨o + 1, w ++ rest⟩ : Cursor UInt8).size + 1, ?_⟩
  rw [hw, readHead, StateT.run_bind, readInitialByte, List.cons_append, run_assert_readByte]
  simp only [ha, ne_eq, hne, not_false_eq_true, if_true]
  rfl

/-- **A wider head is refused**, whatever its argument. -/
theorem readHead_of_wide (hm : m ∈ MajorType.all) (harg : size < arg.numBytes) (o : ℕ)
    (rest : List UInt8) : ∃ dumped, (readHead size m).run ⟨o, arg.head m ++ rest⟩ =
      .error (.thrown (.serializer (.invalidSize "encountered value exceeds value size" size
        arg.numBytes) (o + 1) dumped)) := by
  cases arg with
  | inPlace i => exact absurd harg (Nat.not_lt_zero _)
  | following e x =>
    obtain ⟨hmajor, hinfo⟩ := initialByte_parts m hm ⟨24 + e, by omega⟩
    obtain ⟨hin, hsupported, hbytes⟩ := CborReader.following e
    have hwide : 2 ^ e.val > size := harg
    refine ⟨(⟨o + 1, writeContingentBytes x.toNat (2 ^ e.val) ++ rest⟩ : Cursor UInt8).size + 1, ?_⟩
    rw [Argument.head, readHead, StateT.run_bind, readInitialByte, List.cons_append,
      run_assert_readByte]
    simp only [hmajor, hinfo, ne_eq, not_true_eq_false, if_false, if_neg hin, if_neg hsupported,
      hbytes, if_pos hwide]
    rfl

end CborReader

/-! ## Integers -/

namespace IntegerType

variable {type : IntegerType} {item : IntegerItem}

theorem majorType_mem (item : IntegerItem) : item.majorType ∈ MajorType.all := by
  rw [IntegerItem.majorType]
  split_ifs <;> decide

/-- **What is read** is the number of the item, modulo the size of the type. -/
theorem reads_item (hsize : item.argument.numBytes ≤ type.size)
    (hsign : item.negative = true → type.signed = true) :
    Reads type.read item.bytes (BitVec.ofInt _ item.value) := by
  have hhead := reads_head (majorType_mem item) hsize
  obtain ⟨a, w, hw, ha⟩ := head_initialByte (majorType_mem item) item.argument
  have hbytes : item.bytes = a :: w := hw
  rw [read]
  cases hneg : item.negative with
  | false =>
    have hmajor : item.majorType = MajorType.unsignedInt := by
      rw [IntegerItem.majorType, hneg, if_neg Bool.false_ne_true]
    have hvalue : item.value = (item.argument.toNat : ℤ) := by
      rw [IntegerItem.value, hneg, if_neg Bool.false_ne_true]
    rw [hvalue, BitVec.ofInt_natCast]
    rw [hmajor] at hhead ha
    have hunsigned : Reads (readHead type.size MajorType.unsignedInt) item.bytes
        (BitVec.ofNat (8 * type.size) item.argument.toNat) := by
      rwa [IntegerItem.bytes, hmajor]
    split_ifs
    · rw [hbytes] at hunsigned ⊢
      refine reads_peekByte ?_
      rw [if_neg (by rw [ha]; decide)]
      exact hunsigned
    · exact hunsigned
  | true =>
    have hmajor : item.majorType = MajorType.signedInt := by
      rw [IntegerItem.majorType, hneg, if_pos rfl]
    have hvalue : item.value = Int.negSucc item.argument.toNat := by
      rw [IntegerItem.value, hneg, if_pos rfl, Int.negSucc_eq]
      omega
    rw [if_pos (hsign hneg), hvalue, BitVec.ofInt_negSucc_eq_not_ofNat]
    rw [hmajor] at hhead ha
    have hsigned := hhead.bind_pure (g := fun u => -1 - u)
    rw [neg_one_sub, ← hmajor] at hsigned
    change Reads _ item.bytes _ at hsigned
    rw [hbytes] at hsigned ⊢
    refine reads_peekByte ?_
    rw [if_pos ha, ← hmajor]
    exact hsigned

/-- A wider head is refused, and so is a negative number for an unsigned type. -/
theorem read_throws
    (hitem : type.size < item.argument.numBytes ∨ (item.negative = true ∧ type.signed = false))
    (o : ℕ) (rest : List UInt8) :
    ∃ e, type.read.run ⟨o, item.bytes ++ rest⟩ = .error (.thrown e) := by
  have hmem := majorType_mem item
  have hhead (m : UInt8) (hm : type.size < item.argument.numBytes ∨ item.majorType ≠ m) :
      ∃ e, (readHead type.size m).run ⟨o, item.bytes ++ rest⟩ = .error (.thrown e) := by
    by_cases hne : item.majorType = m
    · obtain ⟨_, hrun⟩ := readHead_of_wide (m := m) (hne ▸ hmem)
        (hm.resolve_right (not_not.mpr hne)) o rest
      exact ⟨_, by rw [IntegerItem.bytes, hne, hrun]⟩
    · obtain ⟨_, hrun⟩ := readHead_of_ne item.argument hmem hne o rest
      exact ⟨_, hrun⟩
  rw [read]
  cases hsigned : type.signed with
  | false =>
    rw [if_neg Bool.false_ne_true]
    refine hhead MajorType.unsignedInt (hitem.imp_right fun h => ?_)
    rw [IntegerItem.majorType, if_pos h.1]
    decide
  | true =>
    rw [if_pos rfl]
    have hwide := hitem.resolve_right fun h => by simp [hsigned] at h
    obtain ⟨a, w, hw, -⟩ := head_initialByte hmem item.argument
    have hpeek : (readSigned type.size).run ⟨o, item.bytes ++ rest⟩ =
        (if a &&& MajorType.mask = MajorType.signedInt then do
          let unsignedValue ← readHead type.size MajorType.signedInt
          return -1 - unsignedValue
        else readHead type.size MajorType.unsignedInt :
          Read (BitVec (8 * type.size))).run ⟨o, item.bytes ++ rest⟩ := by
      rw [IntegerItem.bytes, hw]
      rfl
    rw [hpeek]
    split_ifs
    · obtain ⟨e, he⟩ := hhead MajorType.signedInt (.inl hwide)
      refine ⟨e, ?_⟩
      rw [StateT.run_bind, he]
      rfl
    · exact hhead MajorType.unsignedInt (.inl hwide)

/-- **What a type writes, it reads back.** -/
theorem reads_write (v : BitVec (8 * type.size)) : Reads type.read (type.write v) v := by
  rw [read, write]
  split_ifs
  · exact reads_readSigned (Nat.le_of_lt_succ type.exponent.isLt) rfl v
  · exact reads_readUnsigned (Nat.le_of_lt_succ type.exponent.isLt) rfl v

/-- **An integer is decoded to the encoded number** by every type that can represent it and is not
narrower than its head. A wider head is refused, also for a number that the type could represent,
and so is a negative number for an unsigned type. What is written is read back. -/
theorem read_integer (type : IntegerType) :
    (∀ (item : IntegerItem) (o : ℕ) (rest : List UInt8),
      item.argument.numBytes ≤ type.size → type.Represents item.value →
        ∃ v, type.read.run ⟨o, item.bytes ++ rest⟩ = .ok (v, ⟨o + item.bytes.length, rest⟩) ∧
          type.toInt v = item.value) ∧
    (∀ (item : IntegerItem) (o : ℕ) (rest : List UInt8),
      type.size < item.argument.numBytes ∨ (item.negative = true ∧ type.signed = false) →
        ∃ e, type.read.run ⟨o, item.bytes ++ rest⟩ = .error (.thrown e)) ∧
    ∀ v, Reads type.read (type.write v) v := by
  refine ⟨fun item o rest hsize hrep => ?_, fun item o rest hitem => read_throws hitem o rest,
    reads_write⟩
  have hsign : item.negative = true → type.signed = true := by
    intro hneg
    by_contra hsigned
    rw [hrep.not_negative (Bool.not_eq_true _ ▸ hsigned)] at hneg
    cases hneg
  exact ⟨_, reads_item hsize hsign o rest, hrep.toInt_ofInt⟩

/-- The largest number of an `int8_t`, in a head of one byte, is read, and a head of two bytes is
refused. -/
theorem read_integer_int8 :
    (∃ v : BitVec (8 * IntegerType.size ⟨true, 0⟩),
      (IntegerType.read ⟨true, 0⟩).run ⟨0, [0x18, 0x7F] ++ []⟩ = .ok (v, ⟨0 + 2, []⟩) ∧
        IntegerType.toInt ⟨true, 0⟩ v = 127) ∧
      (∃ e, (IntegerType.read ⟨true, 0⟩).run ⟨0, [0x19, 0x01, 0x00] ++ []⟩ = .error (.thrown e)) ∧
      Reads (IntegerType.read ⟨true, 0⟩) (IntegerType.write ⟨true, 0⟩ 0x80#8) 0x80#8 :=
  ⟨(read_integer ⟨true, 0⟩).1 ⟨false, .following 0 127#8⟩ 0 [] (by decide) ⟨127#8, by decide⟩,
    (read_integer ⟨true, 0⟩).2.1 ⟨false, .following 1 256#16⟩ 0 [] (.inl (by decide)),
    (read_integer ⟨true, 0⟩).2.2 0x80#8⟩

/-- **A number in more bytes than the type has** is refused although the type represents it. A
number in as many bytes as a signed type has, behind its range, becomes another number. -/
theorem not_read_integer :
    ¬(∀ (type : IntegerType) (item : IntegerItem) (o : ℕ) (rest : List UInt8),
      (type.Represents item.value →
        ∃ v, type.read.run ⟨o, item.bytes ++ rest⟩ = .ok (v, ⟨o + item.bytes.length, rest⟩) ∧
          type.toInt v = item.value) ∧
      (¬type.Represents item.value →
        ∃ e, type.read.run ⟨o, item.bytes ++ rest⟩ = .error (.thrown e))) ∧
    (∃ e, (readSigned 1).run ⟨0, [0x19, 0x00, 0x05]⟩ = .error (.thrown e)) ∧
    (readSigned 1).run ⟨0, [0x18, 0xC8]⟩ = .ok (-56#8, ⟨2, []⟩) := by
  have hwide : ∃ e, (readSigned 1).run ⟨0, [0x19, 0x00, 0x05]⟩ = .error (.thrown e) :=
    ⟨_, rfl⟩
  refine ⟨fun h => ?_, hwide, by decide +kernel⟩
  obtain ⟨v, hv, -⟩ := (h ⟨true, 0⟩ ⟨false, .following 1 5#16⟩ 0 []).1 ⟨5#8, by decide⟩
  obtain ⟨e, he⟩ := hwide
  have hrun : (readSigned 1).run ⟨0, [0x19, 0x00, 0x05]⟩ = .ok (v, ⟨3, []⟩) := hv
  rw [hrun] at he
  cases he

end IntegerType

end Dots
