import Dots.Cbor.Serializer
import Dots.Cbor.Skip

/-!
# Decoding and the end of the input

Decoding looks behind its input in four ways: a signed value looks at its initial byte without a
check, a floating-point value of an unexpected width at four bytes, `skip` at the bytes of a size,
and the message of every `SerializerException` at the byte behind the input.

* `Failure.Inside`, `ReadsInside`: only bytes of the input have been looked at.
* `Inside.entries`, `Inside.type`, `Inside.skip`: what the bytes must be for that. At each item the
  input ends, with nothing to look at, or has the initial byte that is expected.
* **`passes_readType`**: the condition is exact for the values of each descriptor.
* **`deserialize_inside_iff`**: the condition is exact.
-/

set_option autoImplicit false

namespace Dots

open CborFormat CborReader CborSerializer Parse

/-- Only bytes of an input of `size` bytes have been looked at. -/
def Failure.Inside (size : ℕ) : Failure → Prop
  | .thrown (.serializer _ _ dumped) => dumped ≤ size
  | .thrown _ => True
  | .outside offset => offset < size

def ReadsInside {α : Type} (size : ℕ) : Except Failure α → Prop
  | .ok _ => True
  | .error e => e.Inside size

/-! ## The condition on the bytes -/

namespace Inside

/-- What is asked of the bytes before an item, given what is asked of the bytes behind it. -/
abbrev Demand := (List UInt8 → Prop) → List UInt8 → Prop

def majorType (initialByte : UInt8) : UInt8 := initialByte &&& MajorType.mask

def info (initialByte : UInt8) : UInt8 := initialByte &&& AdditionalInformation.mask

/-- The number of bytes that follow an initial byte. -/
def numBytes (info : UInt8) : ℕ :=
  if info ≤ AdditionalInformation.maxInplaceValue then 0
  else 1 <<< (info - AdditionalInformation.followingBytes1).toNat

/-- The number with the given bytes, the most significant first. -/
def number : List UInt8 → ℕ
  | [] => 0
  | b :: bytes => b.toNat <<< (bytes.length * 8) ||| number bytes

/-- The argument of an item: its additional information, or the bytes that follow. -/
def argument (info : UInt8) (bytes : List UInt8) : ℕ :=
  if info ≤ AdditionalInformation.maxInplaceValue then info.toNat
  else number (bytes.take (numBytes info))

/-- The input ends, or an initial byte of the major type follows, for a value of `size` bytes. -/
def initialByte (major : UInt8) (size : ℕ) (k : UInt8 → List UInt8 → Prop) : List UInt8 → Prop
  | [] => True
  | b :: bytes => majorType b = major ∧ info b ≤ AdditionalInformation.followingBytes8 ∧
      numBytes (info b) ≤ size ∧ (numBytes (info b) ≤ bytes.length → k (info b) bytes)

/-- A head; `k` is asked of its argument and of the bytes behind it. -/
def head (major : UInt8) (size : ℕ) (k : ℕ → List UInt8 → Prop) : List UInt8 → Prop :=
  initialByte major size fun i bytes => k (argument i bytes) (bytes.drop (numBytes i))

def unsigned (size : ℕ) : Demand := fun k => head MajorType.unsignedInt size fun _ => k

/-- A signed value must not be missing altogether. -/
def signed (size : ℕ) : Demand := fun k bytes =>
  match bytes with
  | [] => False
  | b :: _ => head (if majorType b = MajorType.signedInt then MajorType.signedInt
      else MajorType.unsignedInt) size (fun _ => k) bytes

def bool : Demand := fun k => head MajorType.simpleOrFloat 1 fun simpleValue bytes =>
  (simpleValue = SimpleValue.false.toNat ∨ simpleValue = SimpleValue.true.toNat) ∧ k bytes

/-- A floating-point value that is neither of its size nor a half must have four bytes. -/
def float (size : ℕ) : Demand := fun k => initialByte MajorType.simpleOrFloat size fun i bytes =>
  if numBytes i = size ∨ numBytes i = 2 then k (bytes.drop (numBytes i))
  else 4 ≤ bytes.length ∧ k (bytes.drop 4)

def byteArray (n : ℕ) : Demand := fun k => head MajorType.byteString 8 fun size bytes =>
  size = n ∧ (n ≤ bytes.length → k (bytes.drop n))

def string : Demand := fun k => head MajorType.textString 8 fun size bytes =>
  size ≤ bytes.length → k (bytes.drop size)

def fundamental : FundamentalType → Demand
  | .boolean => bool
  | .int8 => signed 1
  | .int16 => signed 2
  | .int32 => signed 4
  | .int64 => signed 8
  | .uint8 => unsigned 1
  | .uint16 => unsigned 2
  | .uint32 | .propertySet => unsigned 4
  | .uint64 => unsigned 8
  | .float32 => float 4
  | .float64 | .timepoint | .steadyTimepoint | .duration => float 8
  | .uuid => byteArray 16
  | .string => string

/-- The bytes of a skipped size must be there; then as many bytes are passed again. -/
def size (i : UInt8) (k : ℕ → List UInt8 → Prop) : List UInt8 → Prop := fun bytes =>
  i ≤ AdditionalInformation.followingBytes8 ∧ numBytes i ≤ bytes.length ∧
    (numBytes i ≤ (bytes.drop (numBytes i)).length →
      k (argument i bytes) ((bytes.drop (numBytes i)).drop (numBytes i)))

/-- An item that is skipped, given what is asked of the items inside. -/
def skipItem (skip : Demand) : Demand := fun k bytes =>
  match bytes with
  | [] => True
  | b :: bytes =>
    if majorType b ∈ [MajorType.unsignedInt, MajorType.signedInt, MajorType.simpleOrFloat] then
      info b ≤ AdditionalInformation.followingBytes8 ∧
        (numBytes (info b) ≤ bytes.length → k (bytes.drop (numBytes (info b))))
    else if majorType b ∈ [MajorType.byteString, MajorType.textString] then
      size (info b) (fun n bytes => n ≤ bytes.length → k (bytes.drop n)) bytes
    else if majorType b = MajorType.array then
      size (info b) (fun n => skip^[n] k) bytes
    else if majorType b = MajorType.map then
      size (info b) (fun n => (fun k => skip (skip k))^[n] k) bytes
    else k bytes

def skipDepth : (depth : ℕ) → Demand
  | 0 => fun k bytes => 1 ≤ bytes.length → k bytes
  | depth + 1 => skipItem (skipDepth depth)

/-- An item that is skipped. -/
def skip : Demand := fun k bytes => skipDepth bytes.length k bytes

/-- The entries of a map; `property` gives what is asked of a property that is read. -/
def entries (property : BitVec 32 → Option Demand) : Demand := fun k =>
  head MajorType.map 8 fun n =>
    (fun k => head MajorType.unsignedInt 4 fun tag =>
      (property (BitVec.ofNat 32 tag)).getD skip k)^[n] k

mutual

def type : TypeDescriptor → Demand
  | .fundamental t => fundamental t
  | .enumeration _ es => fun k => head MajorType.unsignedInt 4 fun tag bytes =>
      (∃ e ∈ es, e.tag = BitVec.ofNat 32 tag) → k bytes
  | .vector d => fun k => head MajorType.array 8 fun n => (type d)^[n] k
  | .struct ps => entries fun tag => property Finset.univ tag ps

def property (included : PropertySet) (tag : BitVec 32) : PropertyDescriptors → Option Demand
  | .nil => none
  | .cons p d ps =>
    if BitVec.ofNat 32 p.tag = tag then
      if p.tag ∈ included then some (type d) else none
    else property included tag ps

end

theorem number_lt : ∀ bytes : List UInt8, number bytes < 2 ^ (8 * bytes.length)
  | [] => by simp [number]
  | b :: bytes => by
    have hb : b.toNat < 2 ^ 8 := b.toNat_lt
    have hlt := number_lt bytes
    have hpow : 2 ^ (8 * (b :: bytes).length) = 2 ^ 8 * 2 ^ (bytes.length * 8) := by
      rw [← pow_add, List.length_cons]
      congr 1
      omega
    apply Nat.or_lt_two_pow
    · rw [hpow, Nat.shiftLeft_eq]
      exact Nat.mul_lt_mul_of_pos_right hb (Nat.two_pow_pos _)
    · exact hlt.trans_le (Nat.pow_le_pow_right (by omega) (by simp))

theorem numBytes_following {i : UInt8} (h : ¬i ≤ AdditionalInformation.maxInplaceValue) :
    numBytes i = 1 <<< (i - AdditionalInformation.followingBytes1).toNat := if_neg h

/-- An argument fits into a value that may have as many bytes. -/
theorem argument_lt {i : UInt8} {bytes : List UInt8} {n : ℕ} (hn : 1 ≤ n) (h : numBytes i ≤ n) :
    argument i bytes < 2 ^ (8 * n) := by
  unfold argument
  split_ifs
  · exact i.toNat_lt.trans_le (Nat.pow_le_pow_right (by omega) (by omega))
  · refine (number_lt _).trans_le (Nat.pow_le_pow_right (by omega) ?_)
    have hlength := List.length_take_le (numBytes i) bytes
    omega

theorem initialByte_congr {major : UInt8} {n : ℕ} {k k' : UInt8 → List UInt8 → Prop}
    (h : ∀ i w, numBytes i ≤ n → numBytes i ≤ w.length → (k i w ↔ k' i w)) :
    ∀ w, initialByte major n k w ↔ initialByte major n k' w
  | [] => Iff.rfl
  | _ :: w => and_congr_right fun _ => and_congr_right fun _ => and_congr_right fun hn =>
      imp_congr_right fun hw => h _ w hn hw

/-- Only arguments that fit are asked for. -/
theorem head_congr {major : UInt8} {n : ℕ} (hn : 1 ≤ n) {k k' : ℕ → List UInt8 → Prop}
    (h : ∀ x w, x < 2 ^ (8 * n) → (k x w ↔ k' x w)) (w : List UInt8) :
    head major n k w ↔ head major n k' w :=
  initialByte_congr (fun _ _ hi _ => h _ _ (argument_lt hn hi)) w

theorem numBytes_le {i : UInt8} (h : i ≤ AdditionalInformation.followingBytes8) :
    numBytes i ≤ 8 := by
  have hall : ∀ n : Fin 28, numBytes (UInt8.ofNat n) ≤ 8 := by decide
  have hi := hall ⟨i.toNat, Nat.lt_succ_of_le h⟩
  rwa [UInt8.ofNat_toNat] at hi

theorem size_congr {i : UInt8} {k k' : ℕ → List UInt8 → Prop}
    (h : ∀ x w, x < 2 ^ (8 * 8) → (k x w ↔ k' x w)) (w : List UInt8) :
    size i k w ↔ size i k' w :=
  and_congr_right fun hi => and_congr_right fun _ => imp_congr_right fun _ =>
    h _ _ (argument_lt (by omega) (numBytes_le hi))

end Inside

/-! ## What the reader does -/

open Inside

theorem not_inside_throwException (error : SerializerError) (c : Cursor UInt8) :
    ¬Failure.Inside c.size (.thrown (.serializer error c.offset (c.size + 1))) :=
  Nat.not_succ_le_self _

theorem precondition_throwException {α : Type} (error : SerializerError) :
    Precondition Failure.Inside (throwException error : Read α) fun _ _ => False :=
  .fail (not_inside_throwException error)

theorem passes_assertInputAvailable (n : ℕ) :
    Passes Failure.Inside (assertInputAvailable n) fun k w => n ≤ w.length → k w := by
  intro k c
  by_cases h : n ≤ c.rest.length
  · have hrun : (assertInputAvailable n).run c = .ok ((), c) := if_neg (not_lt.mpr h)
    rw [hrun]
    exact ⟨.refl c, fun hk => hk h, fun hk _ => hk⟩
  · have hrun : (assertInputAvailable n).run c = .error (.thrown .outOfData) :=
      if_pos (not_le.mp h)
    rw [hrun]
    exact ⟨fun _ => trivial, fun _ hn => absurd hn h⟩

/-- The next byte must be there. -/
theorem precondition_readByte : Precondition Failure.Inside readByte fun k w =>
    match w with
    | [] => False
    | b :: w => k b w := by
  rintro k ⟨o, _ | ⟨b, w⟩⟩
  · exact ⟨False.elim, fun h => absurd h (Nat.lt_irrefl o)⟩
  · exact ⟨⟨1, Nat.succ_le_succ (Nat.zero_le _), rfl⟩, Iff.rfl⟩

/-- So must the next `n` bytes. -/
theorem passes_readBytes (n : ℕ) :
    Passes Failure.Inside (readBytes n) fun k w => n ≤ w.length ∧ k (w.drop n) := by
  intro k c
  by_cases h : n ≤ c.rest.length
  · have hrun : (readBytes n).run c = .ok (_, c.advance n) := dif_pos h
    rw [hrun]
    exact ⟨⟨n, h, rfl⟩, fun hk => hk.2, fun hk => ⟨h, hk⟩⟩
  · have hrun : (readBytes n).run c = .error (.outside c.size) := dif_neg h
    rw [hrun]
    exact ⟨fun hk => absurd hk.1 h, fun hlt => absurd hlt (Nat.lt_irrefl _)⟩

theorem ofNat_number_cons (w : ℕ) (b : UInt8) (bytes : List UInt8) :
    BitVec.ofNat w (number (b :: bytes)) =
      BitVec.ofNat w b.toNat <<< (bytes.length * 8) ||| BitVec.ofNat w (number bytes) := by
  apply BitVec.eq_of_getLsbD_eq
  intro i hi
  simp only [number, BitVec.getLsbD_or, BitVec.getLsbD_ofNat, BitVec.getLsbD_shiftLeft,
    Nat.testBit_or, Nat.testBit_shiftLeft, hi, decide_true, Bool.true_and]
  by_cases hlow : i < bytes.length * 8
  · simp [hlow]
  · simp [hlow, not_lt.mp hlow, (Nat.sub_le i (bytes.length * 8)).trans_lt hi]

/-- The bytes of a number are read without a check. -/
theorem precondition_readContingentBytes (w : ℕ) : ∀ (n : ℕ) (v : BitVec w),
    Precondition Failure.Inside (readContingentBytes w n v) fun k bytes =>
      n ≤ bytes.length ∧ k (v ||| BitVec.ofNat w (number (bytes.take n))) (bytes.drop n)
  | 0, v => (Precondition.pure v).congr fun k bytes => by simp [number]
  | n + 1, v => by
    refine (precondition_readByte.bind fun b => precondition_readContingentBytes w n _).congr
      fun k bytes => ?_
    cases bytes with
    | nil => simp
    | cons b bytes =>
      rw [List.length_cons, Nat.add_le_add_iff_right, List.take_succ_cons, List.drop_succ_cons]
      refine and_congr_right fun h => ?_
      rw [ofNat_number_cons, List.length_take_of_le h, BitVec.or_assoc]

/-- An initial byte: the input may end before it. -/
theorem precondition_initialByte :
    Precondition Failure.Inside (do assertInputAvailable 1; readByte) fun k w =>
      match w with
      | [] => True
      | b :: w => k b w := by
  refine ((passes_assertInputAvailable 1).then fun _ => precondition_readByte).congr fun k w => ?_
  cases w <;> simp

theorem precondition_readInitialByte (major : UInt8) (n : ℕ) :
    Precondition Failure.Inside (readInitialByte major n) fun k =>
      initialByte major n fun i w => k (numBytes i, i) w := by
  have hrest (b : UInt8) : Precondition Failure.Inside (do
      if majorType b ≠ major then
        throwException (.unexpectedMajorType major (majorType b))
      else if info b ≤ AdditionalInformation.maxInplaceValue then
        return (0, info b)
      else if info b > AdditionalInformation.followingBytes8 then
        throwException (.value "encountered unsupported additional information" (info b))
      else
        let numBytes := 1 <<< (info b - AdditionalInformation.followingBytes1).toNat
        if numBytes > n then
          throwException (.invalidSize "encountered value exceeds value size" n numBytes)
        else
          assertInputAvailable numBytes
          return (numBytes, info b)) fun k w => initialByte major n (fun i w => k (numBytes i, i) w)
            (b :: w) := by
    split_ifs with hmajor hin hsupported
    · exact (precondition_throwException _).congr fun k w => iff_false_intro fun h => hmajor h.1
    · refine (Precondition.pure _).congr fun k w => ?_
      have hle : info b ≤ AdditionalInformation.followingBytes8 := UInt8.le_trans hin (by decide)
      simp only [initialByte, numBytes, if_pos hin, not_not.mp hmajor, hle, Nat.zero_le, true_and,
        true_implies]
    · exact (precondition_throwException _).congr fun k w =>
        iff_false_intro fun h => absurd h.2.1 (UInt8.not_le.mpr hsupported)
    · simp only [← numBytes_following hin]
      split_ifs with hsize
      · exact (precondition_throwException _).congr fun k w =>
          iff_false_intro fun h => absurd h.2.2.1 (not_le.mpr hsize)
      · refine ((passes_assertInputAvailable _).then fun _ => .pure _).congr fun k w => ?_
        simp only [initialByte, not_not.mp hmajor, UInt8.not_lt.mp hsupported, not_lt.mp hsize,
          true_and]
  have hassoc : readInitialByte major n = (do assertInputAvailable 1; readByte) >>= _ :=
    (bind_assoc ..).symm
  rw [hassoc]
  refine (precondition_initialByte.bind hrest).congr fun k w => ?_
  cases w with
  | nil => rfl
  | cons b w => rfl

theorem precondition_readHead (major : UInt8) (n : ℕ) :
    Precondition Failure.Inside (readHead n major) fun k =>
      head major n fun x => k (BitVec.ofNat (8 * n) x) := by
  have hrest (r : ℕ × UInt8) : Precondition Failure.Inside (do
      if r.2 ≤ AdditionalInformation.maxInplaceValue then return BitVec.ofNat (8 * n) r.2.toNat
      else readContingentBytes _ r.1 0) fun k w =>
        if r.2 ≤ AdditionalInformation.maxInplaceValue then k (BitVec.ofNat (8 * n) r.2.toNat) w
        else r.1 ≤ w.length ∧ k (BitVec.ofNat (8 * n) (number (w.take r.1))) (w.drop r.1) := by
    split_ifs with hin
    · exact .pure _
    · refine (precondition_readContingentBytes _ r.1 0).congr fun k w => ?_
      rw [show (0 : BitVec (8 * n)) ||| _ = _ from BitVec.zero_or]
  refine ((precondition_readInitialByte major n).bind hrest).congr fun k w =>
    initialByte_congr (fun i w _ hw => ?_) w
  dsimp only [argument]
  split_ifs with hin
  · rw [numBytes, if_pos hin, List.drop_zero]
  · exact (and_iff_right hw).symm

theorem toNat_ofNat_eight {x : ℕ} (h : x < 2 ^ (8 * 8)) : (BitVec.ofNat (8 * 8) x).toNat = x := by
  rw [BitVec.toNat_ofNat, Nat.mod_eq_of_lt h]

/-- What follows a size may ask for it as a number. -/
theorem passes_size {α : Type} {major : UInt8} {f : BitVec (8 * 8) → Read α}
    {g : ℕ → Demand} (h : ∀ n, Passes Failure.Inside (f n) (g n.toNat)) :
    Passes Failure.Inside (readHead 8 major >>= f) fun k => head major 8 fun x => g x k := by
  refine ((precondition_readHead major 8).then h).congr fun k w =>
    head_congr (by omega) (fun x w hx => ?_) w
  dsimp only
  rw [toNat_ofNat_eight hx]

theorem passes_readUnsigned (n : ℕ) : Passes Failure.Inside (readUnsigned n) (unsigned n) :=
  (precondition_readHead _ n).passes

theorem passes_readSigned (n : ℕ) : Passes Failure.Inside (readSigned n) (signed n) := by
  rintro k ⟨o, _ | ⟨b, w⟩⟩
  · exact ⟨False.elim, fun h => absurd h (Nat.lt_irrefl o)⟩
  · have hpeek : (readSigned n).run ⟨o, b :: w⟩ =
        (if majorType b = MajorType.signedInt then
          (do return -1 - (← readHead n MajorType.signedInt))
        else readHead n MajorType.unsignedInt : Read (BitVec (8 * n))).run ⟨o, b :: w⟩ := rfl
    rw [hpeek]
    show Tells _ (head (if _ then _ else _) n (fun _ => k) (b :: w)) _ _ _
    split_ifs
    · exact (precondition_readHead _ n).passes.bind_pure k _
    · exact (precondition_readHead _ n).passes k _

theorem passes_readBool : Passes Failure.Inside readBool bool := by
  have hrest (v : BitVec (8 * 1)) : Passes Failure.Inside (do
      if v.toNat = SimpleValue.false.toNat then return false
      else if v.toNat = SimpleValue.true.toNat then return true
      else throwException (.value "encountered unexpected simple value when deserializing bool"
        (UInt8.ofNat v.toNat))) fun k w =>
          (v.toNat = SimpleValue.false.toNat ∨ v.toNat = SimpleValue.true.toNat) ∧ k w := by
    split_ifs with hfalse htrue
    · exact (Passes.pure _).congr fun k w => and_iff_right (.inl hfalse)
    · exact (Passes.pure _).congr fun k w => and_iff_right (.inr htrue)
    · exact (precondition_throwException _).passes.congr fun k w =>
        iff_false_intro fun h => h.1.elim hfalse htrue
  refine ((precondition_readHead MajorType.simpleOrFloat 1).then hrest).congr fun k w =>
    head_congr le_rfl (fun x w hx => ?_) w
  dsimp only
  rw [BitVec.toNat_ofNat, Nat.mod_eq_of_lt hx]

/-- The bytes that are asserted are there. -/
theorem passes_available (n : ℕ) : Passes Failure.Inside
    (do assertInputAvailable n; readBytes n) fun k w => n ≤ w.length → k (w.drop n) :=
  ((passes_assertInputAvailable n).bind fun _ => passes_readBytes n).congr fun _ _ =>
    imp_congr_right fun h => (and_iff_right h).symm

theorem passes_readByteArray (n : ℕ) :
    Passes Failure.Inside (readByteArray n) (byteArray n) := by
  refine passes_size (g := fun x k w => x = n ∧ (n ≤ w.length → k (w.drop n))) fun size => ?_
  split_ifs with hsize
  · exact (precondition_throwException _).passes.congr fun k w =>
      iff_false_intro fun h => hsize h.1
  · exact (passes_available n).congr fun k w => and_iff_right (not_not.mp hsize)

theorem passes_readString : Passes Failure.Inside readString string := by
  refine passes_size (g := fun n k w => n ≤ w.length → k (w.drop n)) fun size => ?_
  rw [← bind_assoc]
  exact (passes_available size.toNat).bind_pure

theorem passes_readContingentBytes (w n : ℕ) (v : BitVec w) :
    Passes Failure.Inside (readContingentBytes w n v) fun k w => n ≤ w.length ∧ k (w.drop n) :=
  (precondition_readContingentBytes w n v).passes

theorem passes_look (n : ℕ) : Passes Failure.Inside
    (Parse.look (fun c : Cursor UInt8 => Failure.outside c.size) n) fun k w =>
      n ≤ w.length ∧ k w := by
  intro k c
  by_cases h : n ≤ c.rest.length
  · have hrun : (Parse.look (fun c => Failure.outside c.size) n).run c = .ok (_, c) := dif_pos h
    rw [hrun]
    exact ⟨.refl c, fun hk => hk.2, fun hk => ⟨h, hk⟩⟩
  · have hrun : (Parse.look (fun c => Failure.outside c.size) n).run c = .error (.outside c.size) :=
      dif_neg h
    rw [hrun]
    exact ⟨fun hk => absurd hk.1 h, fun hlt => absurd hlt (Nat.lt_irrefl _)⟩

/-- Half-precision bytes are looked at, and then read. -/
theorem passes_half {α : Type} (zero : α) (ofHalf : BitVec 16 → α) : Passes Failure.Inside (do
    let half ← Parse.look (fun c => Failure.outside c.size) 2
    if half.1 = [0, 0] then
      let _ ← readBytes 2
      return zero
    else
      return ofHalf (← readContingentBytes 16 2 0)) fun k w => 2 ≤ w.length ∧ k (w.drop 2) := by
  have hread (half : {w : List UInt8 // w.length = 2}) : Passes Failure.Inside (do
      if half.1 = [0, 0] then
        let _ ← readBytes 2
        return zero
      else
        return ofHalf (← readContingentBytes 16 2 0))
      fun k w => 2 ≤ w.length ∧ k (w.drop 2) := by
    split_ifs
    · exact (passes_readBytes 2).bind_pure
    · exact (passes_readContingentBytes 16 2 0).bind_pure
  refine ((passes_look 2).bind hread).congr fun k w => ?_
  rw [and_self_left]

theorem passes_readFloat (n : ℕ) (ofHalf : BitVec 16 → BitVec (8 * n))
    (ofSingle : BitVec 32 → BitVec (8 * n)) :
    Passes Failure.Inside (readFloat n ofHalf ofSingle) (float n) := by
  refine ((precondition_readInitialByte MajorType.simpleOrFloat n).then fun r =>
    (?_ : Passes Failure.Inside _ fun k w => if r.1 = n ∨ r.1 = 2 then
      r.1 ≤ w.length ∧ k (w.drop r.1) else 4 ≤ w.length ∧ k (w.drop 4))).congr fun k w =>
        initialByte_congr (fun i w _ hw => ?_) w
  · obtain ⟨m, i⟩ := r
    dsimp only
    by_cases hsize : m = n
    · subst hsize
      simp only [true_or, if_true]
      exact passes_readContingentBytes _ _ 0
    by_cases hhalf : m = 2
    · subst hhalf
      simp only [hsize, or_true, if_true, if_false]
      exact passes_half 0 ofHalf
    · simp only [hsize, hhalf, or_self, if_false]
      exact (passes_readContingentBytes 32 4 0).bind_pure
  · dsimp only
    rw [and_iff_right hw]

theorem passes_readFundamental (casts : FloatCasts) (t : FundamentalType) :
    Passes Failure.Inside (readFundamental casts t) (fundamental t) := by
  have hfloat64 : Passes Failure.Inside (readFloat64 casts) (float 8) := passes_readFloat 8 _ _
  cases t with
  | boolean => exact passes_readBool
  | int8 => exact passes_readSigned 1
  | int16 => exact passes_readSigned 2
  | int32 => exact passes_readSigned 4
  | int64 => exact passes_readSigned 8
  | uint8 => exact passes_readUnsigned 1
  | uint16 => exact passes_readUnsigned 2
  | uint32 | propertySet => exact passes_readUnsigned 4
  | uint64 => exact passes_readUnsigned 8
  | float32 => exact passes_readFloat 4 _ _
  | float64 | timepoint | steadyTimepoint | duration => exact hfloat64
  | uuid => exact passes_readByteArray 16
  | string => exact passes_readString

/-! ## Skipping -/

theorem passes_consume (n : ℕ) :
    Passes Failure.Inside (consume n) fun k w => n ≤ w.length → k (w.drop n) := by
  rw [consume, ← bind_assoc]
  exact (passes_available n).bind_pure

theorem precondition_getNumBytes (i : UInt8) : Precondition Failure.Inside (getNumBytes i)
    fun k w => i ≤ AdditionalInformation.followingBytes8 ∧ k (numBytes i) w := by
  unfold getNumBytes
  split_ifs with hin hsupported
  · refine (Precondition.pure _).congr fun k w => ?_
    rw [numBytes, if_pos hin]
    exact and_iff_right (UInt8.le_trans hin (by decide))
  · exact (precondition_throwException _).congr fun k w =>
      iff_false_intro fun h => absurd h.1 (UInt8.not_le.mpr hsupported)
  · refine (Precondition.pure _).congr fun k w => ?_
    rw [numBytes_following hin]
    exact and_iff_right (UInt8.not_lt.mp hsupported)

theorem precondition_readSize (i : UInt8) : Precondition Failure.Inside (readSize i)
    fun k => size i fun n => k (BitVec.ofNat 64 n) := by
  have hvalue (m : ℕ) : Precondition Failure.Inside
      (if i ≤ AdditionalInformation.maxInplaceValue then pure (BitVec.ofNat 64 i.toNat)
        else readContingentBytes 64 m 0) fun k w =>
          if i ≤ AdditionalInformation.maxInplaceValue then k (BitVec.ofNat 64 i.toNat) w
          else m ≤ w.length ∧ k (BitVec.ofNat 64 (number (w.take m))) (w.drop m) := by
    split_ifs with hin
    · exact .pure _
    · refine (precondition_readContingentBytes 64 m 0).congr fun k w => ?_
      rw [show (0 : BitVec 64) ||| _ = _ from BitVec.zero_or]
  refine ((precondition_getNumBytes i).bind fun m => (hvalue m).bind fun v =>
    (passes_consume m).then fun _ => .pure v).congr fun k w => and_congr_right fun _ => ?_
  dsimp only [argument]
  split_ifs with hin
  · have hzero : numBytes i = 0 := if_pos hin
    simp [hzero]
  · rfl

/-- What follows a skipped size may ask for it as a number. -/
theorem passes_skipSize {f : BitVec 64 → Read Unit} {g : ℕ → Demand} {i : UInt8}
    (h : ∀ n, Passes Failure.Inside (f n) (g n.toNat)) :
    Passes Failure.Inside (readSize i >>= f) fun k => size i fun x => g x k := by
  refine ((precondition_readSize i).then h).congr fun k w => size_congr (fun x w hx => ?_) w
  dsimp only
  rw [toNat_ofNat_eight hx]

/-- What is skipped behind an initial byte. -/
theorem passes_skipRest {m : Read Unit} {g : Demand} (h : Passes Failure.Inside m g) (b : UInt8) :
    Passes Failure.Inside (skipRest m (majorType b) (info b)) fun k w =>
      Inside.skipItem g k (b :: w) := by
  unfold skipRest
  split_ifs with hnumber hstring harray hmap
  · refine ((precondition_getNumBytes _).then passes_consume).congr fun k w => ?_
    simp only [Inside.skipItem, if_pos hnumber]
  · refine (passes_skipSize (g := fun n k w => n ≤ w.length → k (w.drop n)) fun n =>
      passes_consume n.toNat).congr fun k w => ?_
    simp only [Inside.skipItem, if_neg hnumber, if_pos hstring]
  · refine (passes_skipSize (g := fun n k => g^[n] k) fun n =>
      Passes.iterate (fun _ => h) n.toNat ()).congr fun k w => ?_
    simp only [Inside.skipItem, if_neg hnumber, if_neg hstring, if_pos harray]
  · refine (passes_skipSize (g := fun n k => (fun k => g (g k))^[n] k) fun n =>
      Passes.iterate (fun _ => h.bind fun _ => h) n.toNat ()).congr fun k w => ?_
    simp only [Inside.skipItem, if_neg hnumber, if_neg hstring, if_neg harray, if_pos hmap]
  · refine (Passes.pure ()).congr fun k w => ?_
    simp only [Inside.skipItem, if_neg hnumber, if_neg hstring, if_neg harray, if_neg hmap]

theorem passes_skipItem {m : Read Unit} {g : Demand} (h : Passes Failure.Inside m g) :
    Passes Failure.Inside (CborReader.skipItem m) (Inside.skipItem g) := by
  rw [skipItem_eq, ← bind_assoc]
  refine (precondition_initialByte.then (passes_skipRest h)).congr fun k w => ?_
  cases w with
  | nil => rfl
  | cons b w => rfl

theorem passes_skipDepth : ∀ n, Passes Failure.Inside (CborReader.skipDepth n) (Inside.skipDepth n)
  | 0 => passes_assertInputAvailable 1
  | n + 1 => passes_skipItem (passes_skipDepth n)

theorem passes_skip : Passes Failure.Inside CborReader.skip Inside.skip :=
  fun k c => passes_skipDepth c.rest.length k c

/-! ## Values and instances -/

theorem passes_readEnum (name : String) (es : List EnumeratorDescriptor) :
    Passes Failure.Inside (readEnum name es) (type (.enumeration name es)) := by
  refine ((precondition_readHead MajorType.unsignedInt 4).then fun tag =>
    (?_ : Passes Failure.Inside _ fun k w => (∃ e ∈ es, e.tag = tag) → k w)).congr fun k w => ?_
  · cases hfind : es.find? fun e => e.tag = tag with
    | none =>
      have hnone : ¬∃ e ∈ es, e.tag = tag := by
        rintro ⟨e, he, htag⟩
        exact absurd (decide_eq_true htag) (List.find?_eq_none.mp hfind e he)
      simp only [enumeratorFromTag, hfind]
      exact (Passes.fail_ok fun _ => trivial).congr fun k w => iff_true_intro fun h => absurd h hnone
    | some e =>
      have htag : e.tag = tag := by simpa using List.find?_some hfind
      simp only [enumeratorFromTag, hfind]
      exact (Passes.pure _).congr fun k w =>
        forall_prop_of_true ⟨e, List.mem_of_find?_eq_some hfind, htag⟩
  · rfl

/-- An entry is read, if its property is found, or skipped. -/
theorem passes_readEntries {α : Type} {read : BitVec 32 → α → Option (Read α)}
    {property : BitVec 32 → Option Demand}
    (h : ∀ tag x, Option.Rel (Passes Failure.Inside) (read tag x) (property tag)) (x : α) :
    Passes Failure.Inside (readEntries read x) (entries property) := by
  have hentry (x : α) : Passes Failure.Inside (readEntry read x) fun k =>
      head MajorType.unsignedInt 4 fun tag => (property (BitVec.ofNat 32 tag)).getD Inside.skip k := by
    refine (precondition_readHead MajorType.unsignedInt 4).then fun tag =>
      (?_ : Passes Failure.Inside _ fun k => (property tag).getD Inside.skip k)
    have htag := h tag x
    generalize read tag x = m, property tag = g at htag
    cases htag with
    | some h => exact h
    | none => exact passes_skip.bind_pure
  exact passes_size (g := fun n k => (fun k => head MajorType.unsignedInt 4 fun tag =>
    (property (BitVec.ofNat 32 tag)).getD Inside.skip k)^[n] k) fun n =>
      Passes.iterate hentry n.toNat x

theorem rel_map_left {α β γ : Type} {R : α → β → Prop} {S : γ → β → Prop} {f : α → γ}
    (h : ∀ a b, R a b → S (f a) b) {a : Option α} {b : Option β} (hab : Option.Rel R a b) :
    Option.Rel S (a.map f) b := by
  cases hab with
  | some hab => exact .some (h _ _ hab)
  | none => exact .none

mutual

/-- **The values of a descriptor.** -/
theorem passes_readType (casts : FloatCasts) (level : ℕ) (hlevel : 2 ≤ level) :
    (d : TypeDescriptor) → (v : Value d) →
    Passes Failure.Inside (readType casts level d v) (type d)
  | .fundamental t, _ => passes_readFundamental casts t
  | .enumeration name es, _ => passes_readEnum name es
  | .vector d, _ => passes_size (g := fun n k => (type d)^[n] k) fun n =>
      ((passes_readType casts (level + 1) (by omega) d (Value.fresh d)).replicate n.toNat).bind_pure
  | .struct ps, x => by
    have hincluded : includedAt level (x.validProperties ps) = Finset.univ :=
      if_pos (by unfold visitingLevel; split_ifs <;> omega)
    rw [readType]
    simp only [hincluded]
    exact passes_readEntries (fun tag x =>
      rel_readProperty casts (level + 1) (by omega) Finset.univ tag ps x) x

theorem rel_readProperty (casts : FloatCasts) (level : ℕ) (hlevel : 2 ≤ level)
    (included : PropertySet) (tag : BitVec 32) : (ps : PropertyDescriptors) → (x : Instance ps) →
    Option.Rel (Passes Failure.Inside) (readProperty casts level included tag ps x)
      (property included tag ps)
  | .nil, _ => .none
  | .cons p d ps, (v, x) => by
    rw [readProperty, property]
    simp only [PropertyDescriptor.set_subset_iff]
    split_ifs
    · exact .some (passes_readType casts level hlevel d _).bind_pure
    · exact .none
    · exact rel_map_left (fun _ _ h => Passes.bind_pure h)
        (rel_readProperty casts level hlevel included tag ps x)

end

/-! ## The whole input -/

theorem readsInside_iff {α : Type} {m : Read α} {g : Demand}
    (h : Passes Failure.Inside m g) (c : Cursor UInt8) :
    ReadsInside c.size (m.run c) ↔ g (fun _ => True) c.rest := by
  have hrun := h (fun _ => True) c
  cases hc : m.run c with
  | error e =>
    rw [hc] at hrun
    exact hrun.symm
  | ok r =>
    rw [hc] at hrun
    exact iff_of_true trivial (hrun.2.mpr trivial)

theorem passes_readStruct (casts : FloatCasts) (included : PropertySet) (ps : PropertyDescriptors)
    (x : Instance ps) : Passes Failure.Inside (readStruct casts 1 included ps x)
      (entries fun tag => property included tag ps) := by
  have hincluded : includedAt 1 included = included := if_neg (by decide)
  unfold readStruct
  simp only [hincluded]
  exact passes_readEntries (fun tag x => rel_readProperty casts 2 le_rfl included tag ps x) x

theorem readsInside_deserialize (casts : FloatCasts) (ps : PropertyDescriptors) (x : Instance ps)
    (included : PropertySet) (data : List UInt8) :
    ReadsInside data.length (deserialize casts ps x included data) ↔
      entries (fun tag => property included tag ps) (fun _ => True) data := by
  have hinside := readsInside_iff (passes_readStruct casts included ps x) ⟨0, data⟩
  rw [Cursor.size, Nat.zero_add] at hinside
  rw [← hinside]
  cases data with
  | nil =>
    have hnil : ReadsInside 0 ((readStruct casts 1 included ps x).run ⟨0, []⟩) :=
      hinside.mpr trivial
    exact iff_of_true trivial hnil
  | cons b w =>
    rw [deserialize, if_neg (List.cons_ne_nil b w)]
    cases (readStruct casts 1 included ps x).run ⟨0, b :: w⟩ with
    | error e => rfl
    | ok r => rfl

/-- **The condition is exact** for deserialization, for the read functions and for `skip`. -/
theorem deserialize_inside_iff (casts : FloatCasts) :
    (∀ (ps : PropertyDescriptors) (x : Instance ps) (included : PropertySet)
      (data : List UInt8), ReadsInside data.length (deserialize casts ps x included data) ↔
        entries (fun tag => property included tag ps) (fun _ => True) data) ∧
    (∀ (t : FundamentalType) (c : Cursor UInt8),
      ReadsInside c.size ((readFundamental casts t).run c) ↔
        fundamental t (fun _ => True) c.rest) ∧
    (∀ c : Cursor UInt8, ReadsInside c.size (readArraySize.run c) ↔
      head MajorType.array 8 (fun _ _ => True) c.rest) ∧
    (∀ c : Cursor UInt8, ReadsInside c.size (readMapSize.run c) ↔
      head MajorType.map 8 (fun _ _ => True) c.rest) ∧
    ∀ c : Cursor UInt8, ReadsInside c.size (CborReader.skip.run c) ↔
      Inside.skip (fun _ => True) c.rest :=
  ⟨readsInside_deserialize casts, fun t => readsInside_iff (passes_readFundamental casts t),
    readsInside_iff (precondition_readHead _ 8).passes,
    readsInside_iff (precondition_readHead _ 8).passes, readsInside_iff passes_skip⟩

/-- A struct with a signed value. -/
def signedProperties : PropertyDescriptors := .cons ⟨"value", 1, false⟩ (.fundamental .int8) .nil

/-- **A signed value that is missing**: the initial byte of the value is looked at behind the
input. -/
theorem deserialize_outside :
    deserialize ⟨fun _ => 0, fun _ => 0, fun _ => 0⟩ signedProperties (Instance.fresh _) Finset.univ
        [0xA1, 0x01] = .error (.outside 2) ∧
      ¬ReadsInside 2 (deserialize ⟨fun _ => 0, fun _ => 0, fun _ => 0⟩ signedProperties
        (Instance.fresh _) Finset.univ [0xA1, 0x01]) :=
  ⟨rfl, fun h => absurd (show 2 < 2 from h) (Nat.lt_irrefl 2)⟩

end Dots
