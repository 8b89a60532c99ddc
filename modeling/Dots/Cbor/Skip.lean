import Dots.Cbor.Head

/-!
# Skipping CBOR items

* `reads_skipItem_scalar`: numbers, booleans and floating-point values are skipped exactly.
* `reads_skipItem_string`, `reads_skipItem_array`, `reads_skipItem_map`: what has a size is skipped
  exactly if the size is in the initial byte, that is below 24.
* **`run_skipItem_long`**: behind a longer string as many bytes are asked for again as its size has.
* **`skip_eq`**: `skip` is its own recursion; the depth of the model is no limit.
-/

set_option autoImplicit false

namespace Dots

open CborFormat CborWriter Parse

namespace CborReader

variable {m : UInt8} {w : List UInt8} {skip : Read Unit}

/-- What `skip` does behind the initial byte. -/
def skipRest (skip : Read Unit) (majorType additionalInformation : UInt8) : Read Unit :=
  if majorType ∈ [MajorType.unsignedInt, MajorType.signedInt, MajorType.simpleOrFloat] then do
    consume (← getNumBytes additionalInformation)
  else if majorType ∈ [MajorType.byteString, MajorType.textString] then do
    consume (← readSize additionalInformation).toNat
  else if majorType = MajorType.array then do
    let size ← readSize additionalInformation
    Parse.iterate (fun _ => skip) size.toNat ()
  else if majorType = MajorType.map then do
    let size ← readSize additionalInformation
    Parse.iterate (fun _ => do skip; skip) size.toNat ()
  else
    return ()

theorem skipItem_eq : skipItem skip = (do
    assertInputAvailable 1
    let initialByte ← readByte
    skipRest skip (initialByte &&& MajorType.mask) (initialByte &&& AdditionalInformation.mask)) :=
  rfl

theorem reads_skipItem (hm : m ∈ MajorType.all) (i : Fin 32)
    (h : Reads (skipRest skip m (UInt8.ofNat i)) w ()) :
    Reads (skipItem skip) ((m ||| UInt8.ofNat i) :: w) () := by
  obtain ⟨hmajor, hinfo⟩ := initialByte_parts m hm i
  rw [skipItem_eq]
  refine reads_assertInputAvailable (by simp) ((reads_readByte _).bind (u := w) ?_)
  rwa [hmajor, hinfo]

theorem reads_consume (bytes : List UInt8) : Reads (consume bytes.length) bytes () :=
  reads_assertInputAvailable (f := fun _ => _) le_rfl (reads_readBytes bytes).bind_pure

theorem reads_getNumBytes_inplace {i : ℕ} (hi : i ≤ 23) :
    Reads (getNumBytes (UInt8.ofNat i)) [] 0 := by
  rw [getNumBytes, if_pos (inplace ⟨i, by omega⟩)]
  exact .pure 0

theorem reads_getNumBytes_following {e : ℕ} (he : e ≤ 3) :
    Reads (getNumBytes (UInt8.ofNat (24 + e))) [] (2 ^ e) := by
  obtain ⟨hin, hsupported, hbytes⟩ := following ⟨e, by omega⟩
  rw [getNumBytes, if_neg hin, if_neg hsupported, hbytes]
  exact .pure _

/-- A size in the initial byte is read, and no byte is consumed once more. -/
theorem reads_readSize_inplace {i : ℕ} (hi : i ≤ 23) :
    Reads (readSize (UInt8.ofNat i)) [] (BitVec.ofNat 64 i) := by
  refine (reads_getNumBytes_inplace hi).bind_nil ?_
  rw [if_pos (inplace ⟨i, by omega⟩), UInt8.toNat_ofNat_of_lt' (by simp [UInt8.size]; omega)]
  exact (Reads.pure _).bind_nil ((reads_consume []).bind_nil (.pure _))

/-! ## Numbers, booleans and floating-point values -/

/-- A head is all of an item of these major types. -/
theorem reads_skipItem_head
    (hm : m ∈ [MajorType.unsignedInt, MajorType.signedInt, MajorType.simpleOrFloat])
    (x : BitVec 64) : Reads (skipItem skip) (writeHead m x) () := by
  have hall : m ∈ MajorType.all := by
    revert m
    decide +kernel
  obtain ⟨hin, hw⟩ | ⟨e, he, -, -, -, hw⟩ := writeHead_cases m x
  · rw [hw]
    refine reads_skipItem hall ⟨x.toNat, by omega⟩ ?_
    rw [skipRest, if_pos hm]
    exact (reads_getNumBytes_inplace hin).bind_nil (reads_consume [])
  · rw [hw]
    refine reads_skipItem hall ⟨24 + e, by omega⟩ ?_
    rw [skipRest, if_pos hm]
    refine (reads_getNumBytes_following he).bind_nil ?_
    have hconsume := reads_consume (writeContingentBytes x.toNat (2 ^ e))
    rwa [length_writeContingentBytes] at hconsume

theorem reads_skipItem_float {s : ℕ} (hs : s ≤ 3) (x : ℕ) :
    Reads (skipItem skip)
      ((MajorType.simpleOrFloat ||| UInt8.ofNat (24 + s)) :: writeContingentBytes x (2 ^ s)) () := by
  refine reads_skipItem (by decide) ⟨24 + s, by omega⟩ ?_
  rw [skipRest, if_pos (by decide)]
  refine (reads_getNumBytes_following hs).bind_nil ?_
  have hconsume := reads_consume (writeContingentBytes x (2 ^ s))
  rwa [length_writeContingentBytes] at hconsume

/-! ## Strings, arrays and maps -/

theorem writeHead_inplace {n : ℕ} (hn : n < 24) :
    writeHead m (BitVec.ofNat 64 n) = [m ||| UInt8.ofNat n] := by
  have htoNat : (BitVec.ofNat 64 n).toNat = n := by
    rw [BitVec.toNat_ofNat, Nat.mod_eq_of_lt (by omega)]
  obtain ⟨-, hw⟩ | ⟨e, he, hlt, -⟩ := writeHead_cases m (BitVec.ofNat 64 n)
  · rw [hw, htoNat]
  · omega

theorem reads_skipItem_string (hm : m ∈ [MajorType.byteString, MajorType.textString])
    {bytes : List UInt8} (hn : bytes.length < 24) :
    Reads (skipItem skip) (writeHead m (BitVec.ofNat 64 bytes.length) ++ bytes) () := by
  have hall : m ∈ MajorType.all ∧
      m ∉ [MajorType.unsignedInt, MajorType.signedInt, MajorType.simpleOrFloat] := by
    revert m
    decide +kernel
  rw [writeHead_inplace hn]
  refine reads_skipItem hall.1 ⟨bytes.length, by omega⟩ ?_
  rw [skipRest, if_neg hall.2, if_pos hm]
  refine (reads_readSize_inplace (i := bytes.length) (by omega)).bind_nil ?_
  rw [BitVec.toNat_ofNat, Nat.mod_eq_of_lt (by omega)]
  exact reads_consume bytes

theorem run_consume_outOfData {n : ℕ} {c : Cursor UInt8} (h : c.rest.length < n) :
    (consume n).run c = .error (.thrown .outOfData) := by
  rw [consume, StateT.run_bind, StateT.run, assertInputAvailable, if_pos h]
  rfl

/-- A size behind the initial byte is read, and as many bytes are consumed once more. -/
theorem reads_readSize_following {e x : ℕ} (he : e ≤ 3) (hx : x < 2 ^ (8 * 2 ^ e))
    {again : List UInt8} (hagain : again.length = 2 ^ e) :
    Reads (readSize (UInt8.ofNat (24 + e))) (writeContingentBytes x (2 ^ e) ++ again)
      (BitVec.ofNat 64 x) := by
  have hnumber := reads_readContingentBytes 64 x (2 ^ e) 0
  rw [Nat.mod_eq_of_lt hx, show (0 : BitVec 64) ||| BitVec.ofNat 64 x = _ from BitVec.zero_or]
    at hnumber
  have hconsume := reads_consume again
  rw [hagain] at hconsume
  refine (reads_getNumBytes_following he).bind_nil ?_
  rw [if_neg (following ⟨e, by omega⟩).1]
  refine hnumber.bind ?_
  exact hconsume.bind_pure (g := fun _ => BitVec.ofNat 64 x)

/-- **A longer string** that ends the input is not skipped: out of data. -/
theorem run_skipItem_long (hm : m ∈ [MajorType.byteString, MajorType.textString])
    {bytes : List UInt8} (hn : 24 ≤ bytes.length) (hlt : bytes.length < 2 ^ 64) (o : ℕ) :
    (skipItem skip).run ⟨o, writeHead m (BitVec.ofNat 64 bytes.length) ++ bytes⟩ =
      .error (.thrown .outOfData) := by
  have hall : m ∈ MajorType.all ∧
      m ∉ [MajorType.unsignedInt, MajorType.signedInt, MajorType.simpleOrFloat] := by
    revert m
    decide +kernel
  have htoNat : (BitVec.ofNat 64 bytes.length).toNat = bytes.length := by
    rw [BitVec.toNat_ofNat, Nat.mod_eq_of_lt hlt]
  obtain ⟨hin, -⟩ | ⟨e, he, -, hx, -, hw⟩ := writeHead_cases m (BitVec.ofNat 64 bytes.length)
  · omega
  rw [htoNat] at hw hx
  have hle : 2 ^ e ≤ 2 ^ 3 := Nat.pow_le_pow_right (by omega) he
  obtain ⟨hmajor, hinfo⟩ := initialByte_parts m hall.1 ⟨24 + e, by omega⟩
  have hbytes : (writeContingentBytes bytes.length (2 ^ e) ++ bytes.take (2 ^ e)) ++
      bytes.drop (2 ^ e) = writeContingentBytes bytes.length (2 ^ e) ++ bytes := by
    rw [List.append_assoc, List.take_append_drop]
  have htake : (bytes.take (2 ^ e)).length = 2 ^ e := List.length_take_of_le (by omega)
  have hsize := reads_readSize_following he hx htake
  have hinitial : Reads (do assertInputAvailable 1; readByte) [m ||| UInt8.ofNat (24 + e)] _ :=
    reads_assertInputAvailable (by simp) (reads_readByte _)
  have hassoc : skipItem skip = (do assertInputAvailable 1; readByte) >>= fun initialByte =>
      skipRest skip (initialByte &&& MajorType.mask)
        (initialByte &&& AdditionalInformation.mask) := by
    rw [skipItem_eq, bind_assoc]
  rw [hassoc, hw, ← List.singleton_append, List.append_assoc, hinitial.run_bind, hmajor, hinfo,
    skipRest, if_neg hall.2, if_pos hm, ← hbytes, hsize.run_bind, htoNat]
  apply run_consume_outOfData
  rw [List.length_drop]
  have hpos : 0 < 2 ^ e := Nat.two_pow_pos e
  omega

/-- Runs whose result does not matter, on one word each. -/
theorem words_unit {m : Read Unit} {ws : List (List UInt8)} (h : ∀ w ∈ ws, Reads m w ()) :
    Words (fun _ => m) () ws () := by
  induction ws with
  | nil => exact .nil ()
  | cons w ws ih =>
    exact .cons (h w List.mem_cons_self) (ih fun u hu => h u (List.mem_cons_of_mem _ hu))

theorem reads_skipItem_array {ws : List (List UInt8)} (h : ∀ w ∈ ws, Reads skip w ())
    (hn : ws.length < 24) :
    Reads (skipItem skip) (writeArraySize ws.length ++ ws.flatten) () := by
  rw [writeArraySize, writeHead_inplace hn]
  refine reads_skipItem (by decide) ⟨ws.length, by omega⟩ ?_
  rw [skipRest, if_neg (by decide), if_neg (by decide), if_pos rfl]
  refine (reads_readSize_inplace (i := ws.length) (by omega)).bind_nil ?_
  rw [BitVec.toNat_ofNat, Nat.mod_eq_of_lt (by omega)]
  exact (words_unit h).reads_iterate

/-- The entries of a map are words with a key and a value. -/
theorem reads_skipItem_map {ws : List (List UInt8)} (h : ∀ w ∈ ws, Reads (do skip; skip) w ())
    (hn : ws.length < 24) :
    Reads (skipItem skip) (writeMapSize ws.length ++ ws.flatten) () := by
  rw [writeMapSize, writeHead_inplace hn]
  refine reads_skipItem (by decide) ⟨ws.length, by omega⟩ ?_
  rw [skipRest, if_neg (by decide), if_neg (by decide), if_neg (by decide), if_pos rfl]
  refine (reads_readSize_inplace (i := ws.length) (by omega)).bind_nil ?_
  rw [BitVec.toNat_ofNat, Nat.mod_eq_of_lt (by omega)]
  exact (words_unit h).reads_iterate

/-! ## The depth -/

theorem forward_assertInputAvailable (n : ℕ) : Forward (assertInputAvailable n) := by
  rintro c a c' h
  simp only [StateT.run, assertInputAvailable] at h
  split at h
  · cases h
  · cases h
    exact le_rfl

theorem forward_consume (n : ℕ) : Forward (consume n) :=
  (forward_assertInputAvailable n).bind fun _ => (forward_take n).bind fun _ => .pure ()

theorem forward_getNumBytes (i : UInt8) : Forward (getNumBytes i) := by
  unfold getNumBytes
  split_ifs
  · exact .pure _
  · exact .fail _
  · exact .pure _

theorem forward_readContingentBytes (w : ℕ) : ∀ n v, Forward (readContingentBytes w n v)
  | 0, v => .pure v
  | n + 1, _ => forward_next.bind fun _ => forward_readContingentBytes w n _

theorem forward_readSize (i : UInt8) : Forward (readSize i) := by
  refine (forward_getNumBytes i).bind fun n => Forward.bind ?_ fun v =>
    (forward_consume n).bind fun _ => .pure v
  split_ifs
  · exact .pure _
  · exact forward_readContingentBytes 64 n 0

theorem forward_skipRest (h : Forward skip) (i : UInt8) : Forward (skipRest skip m i) := by
  have hsize := forward_readSize i
  unfold skipRest
  split_ifs
  · exact (forward_getNumBytes i).bind fun n => forward_consume n
  · exact hsize.bind fun n => forward_consume _
  · exact hsize.bind fun n => Forward.iterate (fun _ => h) _ _
  · exact hsize.bind fun n => Forward.iterate (fun _ => h.bind fun _ => h) _ _
  · exact .pure ()

theorem forward_skipDepth : ∀ n, Forward (skipDepth n)
  | 0 => forward_assertInputAvailable 1
  | n + 1 => (forward_assertInputAvailable 1).bind fun _ => forward_next.bind fun _ =>
      forward_skipRest (forward_skipDepth n) _

/-- An item ends before the items inside can look further than the bytes behind its initial
byte. -/
theorem agreeUpTo_skipItem {n : ℕ} {skip' : Read Unit} (h : AgreeUpTo n skip skip')
    (hskip : Forward skip) : AgreeUpTo (n + 1) (skipItem skip) (skipItem skip') := by
  refine (AgreeUpTo.refl _).bind (forward_assertInputAvailable 1) fun _ => .next fun a => ?_
  have hsize := forward_readSize (a &&& AdditionalInformation.mask)
  show AgreeUpTo n (skipRest skip _ _) (skipRest skip' _ _)
  unfold skipRest
  split_ifs
  · exact .refl _
  · exact .refl _
  · exact (AgreeUpTo.refl _).bind hsize fun k => .iterate (fun _ => h) (fun _ => hskip) _ _
  · exact (AgreeUpTo.refl _).bind hsize fun k => .iterate (fun _ => h.bind hskip fun _ => h)
      (fun _ => hskip.bind fun _ => hskip) _ _
  · exact .refl _

theorem agreeUpTo_skipDepth_succ : ∀ n, AgreeUpTo n (skipDepth n) (skipDepth (n + 1))
  | 0 => by
    rintro ⟨o, _ | ⟨a, w⟩⟩ hc
    · rfl
    · cases hc
  | n + 1 => agreeUpTo_skipItem (agreeUpTo_skipDepth_succ n) (forward_skipDepth n)

theorem agreeUpTo_skipDepth {n : ℕ} : ∀ k, AgreeUpTo n (skipDepth n) (skipDepth (n + k))
  | 0 => .refl _
  | k + 1 => fun c hc => (agreeUpTo_skipDepth k c hc).trans
      (agreeUpTo_skipDepth_succ (n + k) c (by omega))

theorem agreeUpTo_skip (n : ℕ) : AgreeUpTo n CborReader.skip (skipDepth n) := by
  intro c hc
  obtain ⟨k, rfl⟩ := Nat.exists_eq_add_of_le hc
  exact agreeUpTo_skipDepth k c le_rfl

/-- **The depth is no limit**: `skip` is its own recursion. -/
theorem skip_eq : CborReader.skip = skipItem CborReader.skip := by
  funext c
  have hdepth := agreeUpTo_skipDepth_succ c.rest.length c le_rfl
  have hinner : AgreeUpTo c.rest.length (skipDepth c.rest.length) CborReader.skip :=
    fun c' hc' => (agreeUpTo_skip _ c' hc').symm
  exact hdepth.trans (agreeUpTo_skipItem hinner (forward_skipDepth _) c (by omega))

end CborReader

end Dots
