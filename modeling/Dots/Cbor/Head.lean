import Dots.Cbor.Reader
import Mathlib.Tactic.IntervalCases

/-!
# The heads of CBOR items

* `writeHead_cases`: the argument is in the initial byte, or in the fewest of one, two, four or
  eight bytes behind it.
* `reads_readContingentBytes`: the bytes of a number, read one by one.
* **`reads_readHead`**: a head is read back into every type that can hold its argument.
* **`reads_readSigned`**, `reads_readFloat`, `reads_readString`: the items of the fundamental types
  are read back.
-/

set_option autoImplicit false

namespace Dots

open CborFormat CborWriter Parse

/-- The major types that are written. -/
def CborFormat.MajorType.all : List UInt8 :=
  [unsignedInt, signedInt, byteString, textString, array, map, simpleOrFloat]

variable {m : UInt8} {α β : Type} {w : List UInt8} {b : β}

/-- The parts of an initial byte. -/
theorem initialByte_parts : ∀ m ∈ MajorType.all, ∀ i : Fin 32,
    (m ||| UInt8.ofNat i) &&& MajorType.mask = m ∧
      (m ||| UInt8.ofNat i) &&& AdditionalInformation.mask = UInt8.ofNat i := by
  decide +kernel

theorem followingBytes (e : ℕ) :
    AdditionalInformation.followingBytes1 + UInt8.ofNat e = UInt8.ofNat (24 + e) := by
  simp [AdditionalInformation.followingBytes1, UInt8.ofNat_add]

/-! ## Writing -/

namespace CborWriter

theorem length_writeContingentBytes (x : ℕ) : ∀ n, (writeContingentBytes x n).length = n
  | 0 => rfl
  | n + 1 => by rw [writeContingentBytes, List.length_cons, length_writeContingentBytes x n]

/-- The exponent of `writeHead`: the number of bytes is the least power of two that suffices. -/
theorem exists_exponent {v : ℕ} (hv : v < 2 ^ 64) : ∃ e ≤ 3,
    (decide (v > 0xFFFFFFFF)).toNat + (decide (v > 0xFFFF)).toNat + (decide (v > 0xFF)).toNat = e ∧
      v < 2 ^ (8 * 2 ^ e) ∧ ∀ s, v < 2 ^ (8 * 2 ^ s) → e ≤ s := by
  by_cases h₁ : v ≤ 0xFF
  · rw [decide_eq_false (by omega), decide_eq_false (by omega), decide_eq_false (by omega)]
    exact ⟨0, by omega, rfl, by omega, fun s _ => s.zero_le⟩
  by_cases h₂ : v ≤ 0xFFFF
  · rw [decide_eq_false (by omega), decide_eq_false (by omega), decide_eq_true (by omega)]
    refine ⟨1, by omega, rfl, by omega, fun s hs => ?_⟩
    by_contra hlt
    interval_cases s
    omega
  by_cases h₃ : v ≤ 0xFFFFFFFF
  · rw [decide_eq_false (by omega), decide_eq_true (by omega), decide_eq_true (by omega)]
    refine ⟨2, by omega, rfl, by omega, fun s hs => ?_⟩
    by_contra hlt
    interval_cases s <;> omega
  · rw [decide_eq_true (by omega), decide_eq_true (by omega), decide_eq_true (by omega)]
    refine ⟨3, le_rfl, rfl, by omega, fun s hs => ?_⟩
    by_contra hlt
    interval_cases s <;> omega

/-- The argument is in the initial byte, or in the fewest bytes behind it. -/
theorem writeHead_cases (m : UInt8) (value : BitVec 64) :
    (value.toNat ≤ 23 ∧ writeHead m value = [m ||| UInt8.ofNat value.toNat]) ∨
      ∃ e ≤ 3, 23 < value.toNat ∧ value.toNat < 2 ^ (8 * 2 ^ e) ∧
        (∀ s, value.toNat < 2 ^ (8 * 2 ^ s) → e ≤ s) ∧
        writeHead m value =
          (m ||| UInt8.ofNat (24 + e)) :: writeContingentBytes value.toNat (2 ^ e) := by
  by_cases hin : value.toNat ≤ 23
  · left
    exact ⟨hin, if_pos hin⟩
  · right
    obtain ⟨e, he, hexp, hlt, hmin⟩ := exists_exponent value.isLt
    refine ⟨e, he, by omega, hlt, hmin, ?_⟩
    rw [writeHead, if_neg (by exact hin)]
    simp only [hexp, followingBytes, Nat.one_shiftLeft]

end CborWriter

/-! ## Reading -/

namespace CborReader

/-- The check sees the whole word. -/
theorem reads_assertInputAvailable {n : ℕ} {f : Unit → Read β} (h : n ≤ w.length)
    (hf : Reads (f ()) w b) : Reads (assertInputAvailable n >>= f) w b := by
  intro o rest
  have hn : ¬n > (w ++ rest).length := by
    rw [List.length_append]
    omega
  rw [StateT.run_bind, StateT.run, assertInputAvailable, if_neg hn]
  exact hf o rest

theorem reads_peekByte {a : UInt8} {f : UInt8 → Read β} (hf : Reads (f a) (a :: w) b) :
    Reads (peekByte >>= f) (a :: w) b := fun o rest => hf o rest

theorem reads_readByte (a : UInt8) : Reads readByte [a] a := reads_next a

theorem reads_readBytes (bytes : List UInt8) :
    Reads (readBytes bytes.length) bytes ⟨bytes, rfl⟩ := reads_take bytes

/-- The first of the bytes of a number, and the others. -/
theorem ofNat_append_byte (w x n : ℕ) :
    BitVec.ofNat w (UInt8.ofNat (x >>> (n * 8))).toNat <<< (n * 8) |||
      BitVec.ofNat w (x % 2 ^ (8 * n)) = BitVec.ofNat w (x % 2 ^ (8 * (n + 1))) := by
  apply BitVec.eq_of_getLsbD_eq
  intro i hi
  have hbyte : (UInt8.ofNat (x >>> (n * 8))).toNat = x >>> (n * 8) % 2 ^ 8 := by simp
  rw [hbyte, BitVec.getLsbD_or, BitVec.getLsbD_shiftLeft]
  simp only [BitVec.getLsbD_ofNat, Nat.testBit_mod_two_pow, Nat.testBit_shiftRight]
  by_cases h : i < n * 8
  · simp [h, hi, show i < 8 * n by omega, show i < 8 * (n + 1) by omega]
  · have hin : n * 8 + (i - n * 8) = i := by omega
    by_cases h' : i < 8 * (n + 1)
    · simp [h, hi, hin, h', show i - n * 8 < w by omega, show i - n * 8 < 8 by omega,
        show ¬i < 8 * n by omega]
    · simp [h, hi, h', show ¬i - n * 8 < 8 by omega, show ¬i < 8 * n by omega]

theorem reads_readContingentBytes (w x : ℕ) : ∀ (n : ℕ) (v : BitVec w),
    Reads (readContingentBytes w n v) (writeContingentBytes x n)
      (v ||| BitVec.ofNat w (x % 2 ^ (8 * n)))
  | 0, v => by
    have hzero : v ||| BitVec.ofNat w (x % 2 ^ (8 * 0)) = v := by simp [Nat.mod_one]
    rw [hzero]
    exact .pure v
  | n + 1, v => by
    have ih := reads_readContingentBytes w x n
      (v ||| (BitVec.ofNat w (UInt8.ofNat (x >>> (n * 8))).toNat <<< (n * 8)))
    rw [BitVec.or_assoc, ofNat_append_byte] at ih
    exact (reads_readByte _).bind ih

variable {e size : ℕ}

theorem inplace : ∀ i : Fin 24, UInt8.ofNat i ≤ AdditionalInformation.maxInplaceValue := by
  decide

theorem following : ∀ e : Fin 4,
    ¬UInt8.ofNat (24 + e) ≤ AdditionalInformation.maxInplaceValue ∧
      ¬UInt8.ofNat (24 + e) > AdditionalInformation.followingBytes8 ∧
      1 <<< (UInt8.ofNat (24 + e) - AdditionalInformation.followingBytes1).toNat = 2 ^ e.val := by
  decide

theorem reads_readInitialByte_inplace (hm : m ∈ MajorType.all) {i : ℕ} (hi : i ≤ 23) :
    Reads (readInitialByte m size) [m ||| UInt8.ofNat i] (0, UInt8.ofNat i) := by
  obtain ⟨hmajor, hinfo⟩ := initialByte_parts m hm ⟨i, by omega⟩
  refine reads_assertInputAvailable (by simp) ((reads_readByte _).bind (u := []) ?_)
  simp only [hmajor, hinfo, ne_eq, not_true_eq_false, if_false, if_pos (inplace ⟨i, by omega⟩)]
  exact .pure _

/-- The bytes that follow have to be there before the initial byte is passed. -/
theorem reads_readInitialByte_following {f : ℕ × UInt8 → Read β} (hm : m ∈ MajorType.all)
    (he : e ≤ 3) (hsize : 2 ^ e ≤ size) (hw : 2 ^ e ≤ w.length)
    (hf : Reads (f (2 ^ e, UInt8.ofNat (24 + e))) w b) :
    Reads (readInitialByte m size >>= f) ((m ||| UInt8.ofNat (24 + e)) :: w) b := by
  obtain ⟨hmajor, hinfo⟩ := initialByte_parts m hm ⟨24 + e, by omega⟩
  obtain ⟨hin, hsupported, hbytes⟩ := following ⟨e, by omega⟩
  rw [readInitialByte, bind_assoc]
  refine reads_assertInputAvailable (by simp) ?_
  rw [bind_assoc]
  refine (reads_readByte _).bind (u := w) ?_
  simp only [hmajor, hinfo, ne_eq, not_true_eq_false, if_false, if_neg hin, if_neg hsupported,
    hbytes, if_neg (Nat.not_lt.mpr hsize), bind_assoc, pure_bind]
  exact reads_assertInputAvailable hw hf

/-- **A head is read back** by every type that can hold its argument. -/
theorem reads_readHead (hm : m ∈ MajorType.all) {s : ℕ} (hsize : size = 2 ^ s)
    {x : BitVec 64} (hx : x.toNat < 2 ^ (8 * size)) :
    Reads (readHead size m) (writeHead m x) (x.setWidth (8 * size)) := by
  have hset : x.setWidth (8 * size) = BitVec.ofNat (8 * size) x.toNat := by
    rw [← BitVec.toNat_inj, BitVec.toNat_setWidth, BitVec.toNat_ofNat]
  obtain ⟨hin, hw⟩ | ⟨e, he, -, hlt, hmin, hw⟩ := writeHead_cases m x
  · rw [hw, hset]
    refine (reads_readInitialByte_inplace hm hin).bind (u := []) ?_
    simp only [if_pos (inplace ⟨x.toNat, by omega⟩)]
    rw [UInt8.toNat_ofNat_of_lt' (by simp [UInt8.size]; omega)]
    exact .pure _
  · rw [hw, hset]
    have hes : 2 ^ e ≤ size := by
      rw [hsize]
      exact Nat.pow_le_pow_right (by omega) (hmin s (by rwa [← hsize]))
    refine reads_readInitialByte_following hm he hes (length_writeContingentBytes ..).ge ?_
    simp only [if_neg (following ⟨e, by omega⟩).1]
    have hread := reads_readContingentBytes (8 * size) x.toNat (2 ^ e) 0
    rw [Nat.mod_eq_of_lt hlt] at hread
    simpa using hread

/-! ## Items of the fundamental types -/

theorem size_le {s : ℕ} (hs : s ≤ 3) (hsize : size = 2 ^ s) : 8 * size ≤ 64 := by
  have hle : 2 ^ s ≤ 2 ^ 3 := Nat.pow_le_pow_right (by omega) hs
  omega

theorem reads_readUnsigned {s : ℕ} (hs : s ≤ 3) (hsize : size = 2 ^ s)
    (v : BitVec (8 * size)) : Reads (readUnsigned size) (writeUnsigned v) v := by
  have hle := size_le hs hsize
  have hlt : (v.setWidth 64).toNat < 2 ^ (8 * size) := by
    rw [BitVec.toNat_setWidth_of_le hle]
    exact v.isLt
  have hread := reads_readHead (m := MajorType.unsignedInt) (by decide) hsize hlt
  rwa [BitVec.setWidth_setWidth_of_le _ hle, BitVec.setWidth_eq] at hread

theorem neg_one_sub {n : ℕ} (x : BitVec n) : -1 - x = ~~~x := by
  rw [show (-1 : BitVec n) = BitVec.allOnes n from BitVec.neg_one_eq_allOnes]
  exact BitVec.allOnes_sub_eq_not x

/-- The argument of a negative number, in the type of the number. -/
theorem setWidth_not_signExtend {n : ℕ} (hn : n ≤ 64) (v : BitVec n) :
    (~~~v.signExtend 64).setWidth n = ~~~v := by
  apply BitVec.eq_of_getLsbD_eq
  intro i hi
  have hi' : i < 64 := by omega
  simp [BitVec.getElem_signExtend, hi, hi']

theorem toNat_not_signExtend_lt {n : ℕ} (hn : n ≤ 64) {v : BitVec n} (hv : v.msb = true) :
    (~~~v.signExtend 64).toNat < 2 ^ n := by
  have hlt := v.isLt
  have hpow : 2 ^ n ≤ 2 ^ 64 := Nat.pow_le_pow_right (by omega) hn
  rw [BitVec.toNat_not, BitVec.toNat_signExtend, BitVec.toNat_setWidth_of_le hn, if_pos hv]
  omega

/-- The initial byte of a head tells its major type. -/
theorem writeHead_initialByte (hm : m ∈ MajorType.all) (value : BitVec 64) :
    ∃ a w, writeHead m value = a :: w ∧ a &&& MajorType.mask = m := by
  obtain ⟨hin, hw⟩ | ⟨e, he, -, -, -, hw⟩ := writeHead_cases m value
  · exact ⟨_, _, hw, (initialByte_parts m hm ⟨value.toNat, by omega⟩).1⟩
  · exact ⟨_, _, hw, (initialByte_parts m hm ⟨24 + e, by omega⟩).1⟩

/-- **A signed number is read back**, whatever its sign. -/
theorem reads_readSigned {s : ℕ} (hs : s ≤ 3) (hsize : size = 2 ^ s) (v : BitVec (8 * size)) :
    Reads (readSigned size) (writeSigned v) v := by
  have hle := size_le hs hsize
  unfold writeSigned
  split_ifs with hv
  · have hmsb : v.msb = false := by
      rw [BitVec.msb_eq_toInt]
      exact decide_eq_false (by omega)
    rw [BitVec.signExtend_eq_setWidth_of_msb_false hmsb]
    have hread := reads_readUnsigned hs hsize v
    obtain ⟨a, w, hw, ha⟩ := writeHead_initialByte (m := MajorType.unsignedInt) (by decide)
      (v.setWidth 64)
    unfold writeUnsigned at hread
    rw [hw] at hread ⊢
    refine reads_peekByte ?_
    rw [if_neg (by rw [ha]; decide)]
    exact hread
  · have hmsb : v.msb = true := by
      rw [BitVec.msb_eq_toInt]
      exact decide_eq_true (by omega)
    rw [neg_one_sub]
    have hread := reads_readHead (m := MajorType.signedInt) (by decide) hsize
      (toNat_not_signExtend_lt hle hmsb)
    rw [setWidth_not_signExtend hle] at hread
    obtain ⟨a, w, hw, ha⟩ := writeHead_initialByte (m := MajorType.signedInt) (by decide)
      (~~~v.signExtend 64)
    rw [hw] at hread ⊢
    refine reads_peekByte ?_
    rw [if_pos ha]
    have hneg := hread.bind_pure (g := fun u => -1 - u)
    rwa [neg_one_sub, BitVec.not_not] at hneg

theorem reads_readBool (v : Bool) : Reads readBool (writeBool v) v := by
  cases v with
  | false =>
    exact (reads_readHead (s := 0) (m := MajorType.simpleOrFloat) (by decide) rfl
      (x := 20) (by decide)).bind (.pure _)
  | true =>
    exact (reads_readHead (s := 0) (m := MajorType.simpleOrFloat) (by decide) rfl
      (x := 21) (by decide)).bind (.pure _)

/-- A floating-point value of its own size is its bit pattern. -/
theorem reads_readFloat {s : ℕ} (hs : s ≤ 3) (hsize : size = 2 ^ s)
    (ofHalf : BitVec 16 → BitVec (8 * size)) (ofSingle : BitVec 32 → BitVec (8 * size))
    (v : BitVec (8 * size)) :
    Reads (readFloat size ofHalf ofSingle)
      ((MajorType.simpleOrFloat ||| UInt8.ofNat (24 + s)) :: writeContingentBytes v.toNat size)
      v := by
  refine reads_readInitialByte_following (by decide) hs hsize.ge
    (hsize ▸ (length_writeContingentBytes ..).ge) ?_
  simp only [if_pos hsize.symm]
  have hread := reads_readContingentBytes (8 * size) v.toNat size 0
  rw [Nat.mod_eq_of_lt v.isLt, BitVec.ofNat_toNat, BitVec.setWidth_eq] at hread
  simpa using hread

theorem toNat_ofNat_size {n : ℕ} (h : n < 2 ^ 64) : (BitVec.ofNat (8 * 8) n).toNat = n := by
  rw [BitVec.toNat_ofNat, Nat.mod_eq_of_lt h]

/-- The sizes of strings, arrays and maps are read back. -/
theorem reads_size (hm : m ∈ MajorType.all) (n : ℕ) :
    Reads (readHead 8 m) (writeHead m (BitVec.ofNat 64 n)) (BitVec.ofNat (8 * 8) n) := by
  have hread : Reads (readHead 8 m) _ ((BitVec.ofNat 64 n).setWidth (8 * 8)) :=
    reads_readHead (s := 3) hm rfl (BitVec.ofNat 64 n).isLt
  have heq : (BitVec.ofNat 64 n).setWidth (8 * 8) = BitVec.ofNat (8 * 8) n := BitVec.setWidth_eq _
  rwa [heq] at hread

theorem reads_readByteArray {n : ℕ} (hn : n < 2 ^ 64)
    (v : {bytes : List UInt8 // bytes.length = n}) :
    Reads (readByteArray n) (writeBytes v.1) v := by
  obtain ⟨bytes, rfl⟩ := v
  refine (reads_size (by decide) bytes.length).bind ?_
  rw [toNat_ofNat_size hn, if_neg (not_not.mpr rfl)]
  exact reads_assertInputAvailable le_rfl (reads_readBytes bytes)

theorem reads_readString (v : {bytes : List UInt8 // bytes.length < 2 ^ 64}) :
    Reads readString (writeString v.1) v := by
  refine (reads_size (by decide) v.1.length).bind ?_
  have hbytes (n : ℕ) (hn : n = v.1.length) (h : n < 2 ^ 64) : Reads (do
      assertInputAvailable n
      let bytes ← readBytes n
      return (⟨bytes.1, by rw [bytes.2]; exact h⟩ : {bytes : List UInt8 // bytes.length < 2 ^ 64}))
      v.1 v := by
    subst hn
    exact reads_assertInputAvailable (f := fun _ => _) le_rfl (reads_readBytes v.1).bind_pure
  exact hbytes _ (toNat_ofNat_size v.2) (BitVec.isLt _)

end CborReader

end Dots
