import Dots.Text.Legible

/-!
# Elements, members and skipped values

* `tryEnd`, `StepsTo`, **`StepsTo.rounds`**: the elements of an array, or the members of an object, are
  read one after the other.
* `Spelled`, `Converts`: the names of types and properties are identifiers; the conversions of other
  libraries write what can stand in a text.
* `Skips`: where a value can stand, a text is skipped as one.
* **`skips_valueTexts`**, **`readsBefore_skip`**: whatever is written for a value is skipped.
-/

set_option autoImplicit false

namespace Dots

open Parse TextReader TextWriter Json

variable {s : TextSerializer} {options : TextOptions} {state : State} {nesting : List State}
  {w text trail rest : List UInt8} {P : List UInt8 → Prop} {α : Type}

/-! ## Elements and members -/

theorem Closing.nonBlank (hs : s.Known) {b : UInt8} (hb : Closing s b) : isWhitespace b = false := by
  rcases hb.mem hs with rfl | rfl <;> rfl

namespace TextSerializer

/-- The end of an array or object. -/
def tryEnd (s : TextSerializer) (nesting : List State) (closing : List UInt8) : ReadText Bool := do
  if ← tryConsumeTokenAfterWhitespace closing then
    finalizeRead s nesting
    return true
  else return false

theorem readsBefore_tryEnd (h : ReadsBefore P (finalizeRead s nesting) trail ()) (hw : Spaces w)
    {b : UInt8} (hb : isWhitespace b = false) :
    ReadsBefore P (tryEnd s nesting [b]) (w ++ ([b] ++ trail)) true := by
  rw [← List.append_assoc]
  exact ReadsBefore.bind (P := fun _ => True) (reads_tokenAfterWhitespace hw.blank hb []).before
    (fun _ _ => trivial) h.bind_pure

/-- The text of an element or member does not begin like the end. -/
structure Opens (b : UInt8) (text : List UInt8) : Prop where
  ne_nil : text ≠ []
  nonBlank (rest : List UInt8) : NonBlank (text ++ rest)
  not_end (rest : List UInt8) : ¬[b] <+: text ++ rest

/-- The elements of an array, or the members of an object, that lead from a value to a result, or to
an error in one of them. -/
inductive StepsTo (s : TextSerializer) (b : UInt8) (body : α → ReadText α) :
    α → List (List UInt8) → Option α → Prop
  | nil (a : α) : StepsTo s b body a [] (some a)
  | cons {a a' : α} {text : List UInt8} {texts : List (List UInt8)} {r : Option α} (hopens : Opens b text)
      (h : ∀ trail P, Separates s trail P → Behaves P (body a) (text ++ trail) (some a'))
      (next : StepsTo s b body a' texts r) : StepsTo s b body a (text :: texts) r
  | fails {a : α} {text : List UInt8} {texts : List (List UInt8)} (hopens : Opens b text)
      (h : ∀ trail P, Separates s trail P → Behaves P (body a) (text ++ trail) none) :
      StepsTo s b body a (text :: texts) none

/-- `fs` tells what is made of each. -/
theorem stepsTo_of_forall₂ {b : UInt8} {body : α → ReadText α} {fs : List (α → Option α)}
    {texts : List (List UInt8)}
    (h : List.Forall₂ (fun f text => Opens b text ∧ ∀ a trail P, Separates s trail P →
      Behaves P (body a) (text ++ trail) (f a)) fs texts) (a : α) :
    StepsTo s b body a texts (fs.foldlM (fun a f => f a) a) := by
  induction h generalizing a with
  | nil => exact .nil a
  | @cons f text fs texts hf _ ih =>
    have hread := hf.2 a
    rw [List.foldlM_cons]
    cases hr : f a with
    | none => exact .fails hf.1 (hr ▸ hread)
    | some a' => exact .cons hf.1 (hr ▸ hread) (ih a')

/-- An element, what is taken behind it, and what remains. -/
theorem separated_cons {b : UInt8} (hb : Closing s b) (hw : Spaces w) (options : TextOptions) (level : ℕ)
    (text : List UInt8) (texts : List (List UInt8)) (trail : List UInt8) :
    ∃ u v Q, separated options level true (text :: texts) ++ (w ++ ([b] ++ trail)) =
        newLine options level ++ ((text ++ u) ++ v) ∧ Separates s u Q ∧ (∀ rest, Q (v ++ rest)) ∧
      ∃ w', Spaces w' ∧ v = separated options level true texts ++ (w' ++ ([b] ++ trail)) := by
  cases texts with
  | nil => exact ⟨w, [b] ++ trail, _, by simp [separated], .blank hw hb, fun rest => ⟨trail ++ rest, by simp⟩,
      [], spaces_nil, rfl⟩
  | cons text' texts => exact ⟨ascii ",", _, _, by simp [separated], .comma, fun _ => trivial, w, hw, rfl⟩

/-- **The elements** between the brackets are read one after the other. -/
theorem StepsTo.rounds (hs : s.Known) {b : UInt8} (hb : Closing s b) {body : α → ReadText α} {a : α}
    {texts : List (List UInt8)} {r : Option α} (h : StepsTo s b body a texts r)
    (hfinal : ReadsBefore P (finalizeRead s nesting) trail ()) (options : TextOptions) (level : ℕ)
    (hw : Spaces w) : RoundsTo P (tryEnd s nesting [b]) body a
      (separated options level true texts ++ (w ++ ([b] ++ trail))) r := by
  have hstop : ReadsBefore (fun rest => NonBlank rest ∧ ¬[b] <+: rest) (tryEnd s nesting [b])
      (newLine options level) false :=
    (readsBefore_skipped (spaces_newLine options level).blank [b]).bind_nil_right (.pure false)
  have hbegins {text : List UInt8} (hopens : Opens b text) (u rest : List UInt8) :
      NonBlank ((text ++ u) ++ rest) ∧ ¬[b] <+: (text ++ u) ++ rest := by
    rw [List.append_assoc]
    exact ⟨hopens.nonBlank _, hopens.not_end _⟩
  induction h generalizing w with
  | nil a => exact .stop (readsBefore_tryEnd hfinal hw (hb.nonBlank hs))
  | @cons a a' text texts r hopens h next ih =>
    obtain ⟨u, v, Q, hword, hseparates, hQ, w', hw', rfl⟩ := separated_cons hb hw options level text texts trail
    rw [hword]
    exact .round hstop (fun rest _ => hbegins hopens u _) (behaves_some_iff.mp (h u Q hseparates))
      (fun rest _ => hQ rest) (by simp [hopens.ne_nil]) (ih hw')
  | @fails a text texts hopens h =>
    obtain ⟨u, v, Q, hword, hseparates, hQ, -⟩ := separated_cons hb hw options level text texts trail
    rw [hword]
    refine .fails hstop (fun rest _ => ?_) ((h u Q hseparates).none_append fun rest _ => hQ rest)
    rw [List.append_assoc]
    exact hbegins hopens u _

theorem foldlM_some {β : Type} (bs : List β) (a : α) :
    (bs.map fun _ => some).foldlM (fun (a : α) f => f a) a = some a := by
  induction bs with
  | nil => rfl
  | cons b bs ih => exact ih

/-! ## Skipping -/

/-- A symbol that is passed. -/
def Plain (b : UInt8) : Prop := b ∉ ascii "\"[]\x7b\x7d,"

instance (b : UInt8) : Decidable (Plain b) := inferInstanceAs (Decidable (b ∉ _))

/-- Where a value can end, the text is passed as one. -/
def Skips (s : TextSerializer) (text : List UInt8) : Prop :=
  ∀ depth, text.length ≤ depth → ∀ state nesting trail P, Separates s trail P →
    Rounds P (trySkip s (skipDepth s depth) (state :: nesting)) (fun _ => inputAdvance 1) ()
      (text ++ trail) ()

/-- The text that is skipped in one round. -/
theorem readsBefore_input {f : List UInt8 → ReadText α} {m : ReadText α} {a : α}
    (h : ∀ rest, P rest → f (w ++ rest) = m) (hm : ReadsBefore P m w a) :
    ReadsBefore P (do let str ← input; f str) w a := by
  intro o rest hrest
  show (f (w ++ rest)).run _ = _
  rw [h rest hrest]
  exact hm o rest hrest

/-- The brackets of both formats. -/
theorem Known.brackets (hs : s.Known) : ∃ a a', s.format.arrayBegin = [a] ∧ s.format.arrayEnd = [a'] ∧
    s.format.objectBegin = [0x7B] ∧ s.format.objectEnd = [0x7D] ∧ (a = 0x5B ∨ a = 0x7B) ∧
    (a' = 0x5D ∨ a' = 0x7D) := by
  rcases hs with hs | hs <;> rw [hs]
  · exact ⟨_, _, rfl, rfl, rfl, rfl, .inl rfl, .inl rfl⟩
  · exact ⟨_, _, rfl, rfl, rfl, rfl, .inr rfl, .inr rfl⟩

variable {skip : List State → ReadText Unit}

theorem readsBefore_trySkip_plain (hs : s.Known) {b : UInt8} (hb : Plain b) :
    ReadsBefore (fun rest => ∃ t, rest = b :: t) (trySkip s skip nesting) [] false := by
  obtain ⟨a, a', harray, harray', hobject, hobject', ha, ha'⟩ := hs.brackets
  refine readsBefore_input (m := pure false) ?_ (.pure false)
  rintro _ ⟨t, rfl⟩
  have hnot {c : UInt8} (hc : c ∈ ascii "\"[]\x7b\x7d,") : ([c] : List UInt8).isPrefixOf (b :: t) = false := by
    rw [isPrefixOf_singleton, decide_eq_false_iff_not]
    rintro ⟨⟩
    exact hb hc
  have hdelimiter : stringDelimiter.isPrefixOf (b :: t) = false := hnot (c := 0x22) (by decide)
  have hcomma : (ascii ",").isPrefixOf (b :: t) = false := hnot (c := 0x2C) (by decide)
  have hbegin : [a].isPrefixOf (b :: t) = false := hnot (by rcases ha with rfl | rfl <;> decide)
  have hend : [a'].isPrefixOf (b :: t) = false := hnot (by rcases ha' with rfl | rfl <;> decide)
  rw [List.nil_append, if_neg (List.cons_ne_nil b t), harray, harray', hobject, hobject',
    hs.commas.element, hs.commas.member, hdelimiter, hcomma, hbegin, hend, hnot (c := 0x7B) (by decide),
    hnot (c := 0x7D) (by decide)]
  rfl

/-- A separator is skipped with the value. -/
theorem readsBefore_trySkip_comma (hs : s.Known) :
    ReadsBefore (fun _ => True) (trySkip s skip nesting) (ascii ",") true := by
  obtain ⟨a, a', harray, -, hobject, -, ha, -⟩ := hs.brackets
  refine readsBefore_input (fun rest _ => ?_) ((reads_consumeToken (ascii ",")).bind_pure (g := fun _ => true)).before
  have hbegin : [a].isPrefixOf (ascii "," ++ rest) = false := by
    rcases ha with rfl | rfl <;> rfl
  have hcomma : (ascii ",").isPrefixOf (ascii "," ++ rest) = true := isPrefixOf_append _ rest
  rw [harray, hobject, hs.commas.element, hbegin, hcomma]
  rfl

/-- An end is not skipped. -/
theorem readsBefore_trySkip_closing (hs : s.Known) {b : UInt8} (hb : Closing s b) :
    ReadsBefore (fun rest => ∃ t, rest = b :: t) (trySkip s skip nesting) [] true := by
  obtain ⟨a, a', harray, -, hobject, -, ha, -⟩ := hs.brackets
  refine readsBefore_input (m := pure true) ?_ (.pure true)
  rintro _ ⟨t, rfl⟩
  have hend : s.format.arrayEnd.isPrefixOf (b :: t) = true ∨ s.format.objectEnd.isPrefixOf (b :: t) = true := by
    rcases hb with hb | hb <;> rw [hb]
    · exact .inl (isPrefixOf_append [b] t)
    · exact .inr (isPrefixOf_append [b] t)
  have hbegin : [a].isPrefixOf (b :: t) = false := by
    rcases hb.mem hs with rfl | rfl <;> rcases ha with rfl | rfl <;> rfl
  have hobjectBegin : ([0x7B] : List UInt8).isPrefixOf (b :: t) = false := by
    rcases hb.mem hs with rfl | rfl <;> rfl
  have hdelimiter : stringDelimiter.isPrefixOf (b :: t) = false := by
    rcases hb.mem hs with rfl | rfl <;> rfl
  have hcomma : (ascii ",").isPrefixOf (b :: t) = false := by
    rcases hb.mem hs with rfl | rfl <;> rfl
  rw [List.nil_append, if_neg (List.cons_ne_nil b t), harray, hobject, hs.commas.element, hs.commas.member,
    hbegin, hobjectBegin, hdelimiter, hcomma, decide_eq_true hend]
  rfl

/-- A string is skipped with what is behind it. -/
theorem readsBefore_trySkip_string (hs : s.Known) (h : Separates s trail P) {body str : List UInt8}
    (hbody : Reads (readDelimited readEscapedSymbol) (stringDelimiter ++ (body ++ stringDelimiter)) str) :
    ReadsBefore P (trySkip s skip (state :: nesting)) (quoted body ++ trail) true := by
  have hread : ReadsBefore P (readEscapedString s (state :: nesting)) (quoted body ++ trail) str := by
    rw [readEscapedString, if_neg (List.cons_ne_nil _ _), quoted_eq]
    exact behaves_some_iff.mp (behaves_finalized hs h hbody.before.behaves)
  refine readsBefore_input (fun rest _ => ?_) (hread.bind_pure (g := fun _ => true))
  have hdelimiter : stringDelimiter.isPrefixOf (quoted body ++ trail ++ rest) = true := by
    rw [quoted_eq, List.append_assoc, List.append_assoc]
    exact isPrefixOf_append _ _
  rw [hdelimiter]
  rfl

/-! ## Texts that are skipped -/

theorem Skips.cons (hs : s.Known) {b : UInt8} (hb : Plain b) (h : Skips s text) : Skips s (b :: text) := by
  intro depth hdepth state nesting trail P hseparates
  have hrest := h depth (Nat.le_of_succ_le hdepth) state nesting trail P hseparates
  have hadvance : Reads (inputAdvance 1) [b] () := fun _ _ => rfl
  exact Rounds.round (w := []) (u := [b]) (readsBefore_trySkip_plain hs hb) (fun rest _ => ⟨_, rfl⟩)
    (hadvance.before (P := fun _ => True)) (fun _ _ => trivial) (by simp) hrest

theorem Skips.append (hs : s.Known) {u : List UInt8} (hu : ∀ b ∈ u, Plain b) (h : Skips s text) :
    Skips s (u ++ text) := by
  induction u with
  | nil => exact h
  | cons b u ih =>
    exact (ih fun c hc => hu c (List.mem_cons_of_mem _ hc)).cons hs (hu b List.mem_cons_self)

theorem skips_nil (hs : s.Known) : Skips s [] := by
  intro depth _ state nesting trail P hseparates
  cases hseparates with
  | comma => exact .stop (readsBefore_trySkip_comma hs)
  | @blank _ b hw hb =>
    have hadvance (c : UInt8) : Reads (inputAdvance 1) [c] () := fun _ _ => rfl
    rw [List.nil_append]
    induction trail with
    | nil => exact .stop (readsBefore_trySkip_closing hs hb)
    | cons c w ih =>
      have hc : Plain c := by
        rcases hw c List.mem_cons_self with rfl | rfl <;> decide
      exact Rounds.round (w := []) (u := [c]) (readsBefore_trySkip_plain hs hc) (fun rest _ => ⟨_, rfl⟩)
        ((hadvance c).before (P := fun _ => True)) (fun _ _ => trivial) (by simp)
        (ih fun d hd => hw d (List.mem_cons_of_mem _ hd))

theorem skips_plain (hs : s.Known) (h : ∀ b ∈ text, Plain b) : Skips s text := by
  have hskips := (skips_nil hs).append hs h
  rwa [List.append_nil] at hskips

theorem skips_string (hs : s.Known) {body str : List UInt8}
    (hbody : Reads (readDelimited readEscapedSymbol) (stringDelimiter ++ (body ++ stringDelimiter)) str) :
    Skips s (quoted body) :=
  fun _ _ _ _ _ _ h => .stop (readsBefore_trySkip_string hs h hbody)

/-- What is skipped, with the whitespace before it. -/
theorem Skips.readsBefore (h : Skips s text) (hbegins : ∀ rest, NonBlank (text ++ rest)) {depth : ℕ}
    (hdepth : text.length < depth) {gap : List UInt8} (hgap : Spaces gap) (hseparates : Separates s trail P) :
    ReadsBefore P (skipDepth s depth (state :: nesting)) (gap ++ (text ++ trail)) () := by
  obtain ⟨depth, rfl⟩ := Nat.exists_eq_add_of_lt hdepth
  refine (readsBefore_whitespace hgap.blank).bind (fun rest _ => ?_)
    (h _ (by omega) state nesting trail P hseparates).readsBefore
  rw [List.append_assoc]
  exact hbegins _

/-- The elements of an array, or the members of an object, are skipped one after the other. -/
theorem readsBefore_loop (hs : s.Known) {b : UInt8} (hb : Closing s b) {body : Unit → ReadText Unit}
    {texts : List (List UInt8)} (h : ∀ text ∈ texts, Opens b text ∧ ∀ trail P, Separates s trail P →
      ReadsBefore P (body ()) (text ++ trail) ())
    (hfinal : ReadsBefore P (finalizeRead s nesting) trail ()) (options : TextOptions) (level : ℕ) :
    ReadsBefore P (loop (tryEnd s nesting [b]) body (fun _ => .hangs) ())
      (separated options (level + 1) true texts ++ (newLine options level ++ ([b] ++ trail))) () := by
  have hall : List.Forall₂ (fun f text => Opens b text ∧ ∀ a trail P, Separates s trail P →
      Behaves P (body a) (text ++ trail) (f a)) (texts.map fun _ => (some : Unit → Option Unit)) texts := by
    rw [List.forall₂_map_left_iff, List.forall₂_same]
    exact fun text htext => ⟨(h text htext).1, fun _ trail P hseparates =>
      ((h text htext).2 trail P hseparates).behaves⟩
  have hsteps := stepsTo_of_forall₂ hall ()
  rw [foldlM_some] at hsteps
  exact behaves_some_iff.mp
    (hsteps.rounds hs hb hfinal options (level + 1) (spaces_newLine options level)).behaves

theorem length_le_of_mem_separated {level : ℕ} {texts : List (List UInt8)} (h : text ∈ texts) :
    ∀ first, text.length ≤ (separated options level first texts).length := by
  induction texts with
  | nil => cases h
  | cons text' texts ih =>
    intro first
    simp only [separated, List.length_append]
    rcases List.mem_cons.mp h with rfl | h
    · omega
    · have hrest := ih h false
      omega

theorem length_lt_enclosed {level : ℕ} {opening closing : List UInt8} {texts : List (List UInt8)}
    (hopening : opening ≠ []) (h : text ∈ texts) :
    text.length < (enclosed options level opening closing texts).length := by
  have hseparated : text.length ≤ (separated options (level + 1) true texts).length :=
    length_le_of_mem_separated h true
  have hpos := List.length_pos_iff.mpr hopening
  simp only [enclosed, List.length_append]
  omega

/-- **An array** is skipped, if its elements are. -/
theorem skips_array (hs : s.Known) {b : UInt8} (hb : s.format.arrayEnd = [b]) {texts : List (List UInt8)}
    (h : ∀ text ∈ texts, Opens b text ∧ Skips s text) (options : TextOptions) (level : ℕ) :
    Skips s (enclosed options level s.format.arrayBegin s.format.arrayEnd texts) := by
  intro depth hdepth state nesting trail P hseparates
  obtain ⟨a, -, harray, -, -, -, ha, -⟩ := hs.brackets
  have hblank : isWhitespace a = false := by rcases ha with rfl | rfl <;> rfl
  have hdelimiter (t : List UInt8) : stringDelimiter.isPrefixOf ([a] ++ t) = false := by
    rcases ha with rfl | rfl <;> rfl
  have htry : tryReadArrayEnd s (state :: nesting) = tryEnd s (state :: nesting) [b] := by
    rw [← hb]
    rfl
  have hloop : ReadsBefore P (loop (tryReadArrayEnd s (state :: nesting))
      (fun _ => skipDepth s depth (.array :: state :: nesting)) (fun _ => .hangs) ())
      (separated options (level + 1) true texts ++ (newLine options level ++ ([b] ++ trail))) () := by
    rw [htry]
    refine readsBefore_loop hs (.inl hb) (fun text htext => ?_)
      (readsBefore_finalizeRead hs hseparates state nesting) options level
    obtain ⟨hopens, hskips⟩ := h text htext
    have hlength : text.length < depth :=
      (length_lt_enclosed (by rw [harray]; exact List.cons_ne_nil a []) htext).trans_le hdepth
    refine ⟨hopens, fun trail P hseparates => ?_⟩
    show ReadsBefore P _ ([] ++ (text ++ trail)) ()
    exact hskips.readsBefore hopens.nonBlank hlength spaces_nil hseparates
  have hword : enclosed options level s.format.arrayBegin s.format.arrayEnd texts ++ trail =
      [a] ++ (separated options (level + 1) true texts ++ (newLine options level ++ ([b] ++ trail))) := by
    simp [enclosed, harray, hb]
  have harrayBegin : ReadsBefore (fun _ => True) (readArrayBegin s) [a] () := by
    rw [readArrayBegin, harray]
    exact (reads_consumeTokenAfterWhitespace blank_nil hblank []).before
  have hread : ReadsBefore P (do
      readArrayBegin s
      loop (tryReadArrayEnd s (state :: nesting))
        (fun _ => skipDepth s depth (.array :: state :: nesting)) (fun _ => .hangs) ()
      return true) _ true := harrayBegin.bind (fun _ _ => trivial) hloop.bind_pure
  rw [hword]
  refine .stop (readsBefore_input (fun rest _ => ?_) hread)
  rw [List.append_assoc, harray, hdelimiter, isPrefixOf_append]
  rfl

/-- A member, up to its value. -/
theorem readsBefore_skipMember (hs : s.Known) {name : String} (hname : IsIdentifier name)
    {value : List UInt8} (hbegins : ∀ rest, NonBlank (value ++ rest)) {skip : ReadText Unit}
    (hskip : ∀ gap, Spaces gap → ReadsBefore P skip (gap ++ (value ++ trail)) ()) (options : TextOptions) :
    ReadsBefore P (do
      let _ ← readObjectMemberName s (.object :: nesting)
      skip) ((s.styled options).memberName (ascii name) ++ value ++ trail) () := by
  obtain ⟨init, gap, htext, hgap, hread⟩ := readsBefore_memberName hs options nesting hname
  rw [htext, List.append_assoc, List.append_assoc]
  refine hread.bind (fun rest _ => ⟨(value ++ trail) ++ rest, List.append_assoc .., ?_⟩) (hskip gap hgap)
  rw [List.append_assoc]
  exact hbegins _

theorem opens_member (hs : s.Known) (name value : List UInt8) :
    Opens 0x7D ((s.styled options).memberName name ++ value) := by
  obtain ⟨b, t, htext, hb⟩ : ∃ b t, (s.styled options).memberName name = b :: t ∧ (b = 0x22 ∨ b = 0x2E) :=
    head_memberName hs name
  rw [htext, List.cons_append]
  refine ⟨List.cons_ne_nil _ _, ?_, ?_⟩
  · rintro rest c hc
    cases hc
    rcases hb with rfl | rfl <;> rfl
  · rintro rest ⟨u, hu⟩
    obtain rfl : (0x7D : UInt8) = b := (List.cons.inj hu).1
    exact absurd hb (by decide)

theorem plain_identifier {name : String} (h : IsIdentifier name) : ∀ b ∈ ascii name, Plain b := by
  intro b hb hspecial
  have hall : ∀ b ∈ ascii "\"[]\x7b\x7d,", isIdentifierSymbol b = false := by decide +kernel
  have hsymbol := isIdentifierSymbol_of_mem h hb
  rw [hall b hspecial] at hsymbol
  cases hsymbol

/-- The name of a member is passed, where objects are like arrays. -/
theorem plain_memberName (hs : s.format = StringFormat) {name : String} (hname : IsIdentifier name) :
    ∀ b ∈ (s.styled options).memberName (ascii name), Plain b := by
  have hformat : (s.styled options).format = StringFormat := hs
  have hvalue : ∀ b ∈ memberValueBegin (s.styled options), Plain b := by
    rw [memberValueBegin, hformat]
    split_ifs <;> decide +kernel
  intro b hb
  rw [memberName, hformat] at hb
  simp only [List.mem_append] at hb
  rcases hb with ((hb | hb) | hb) | hb
  · revert b
    decide +kernel
  · exact plain_identifier hname b hb
  · revert b
    decide +kernel
  · exact hvalue b hb

/-- **An object** is skipped, if the values of its members are. -/
theorem skips_object (hs : s.Known) {members : List (String × List UInt8)}
    (h : ∀ m ∈ members, IsIdentifier m.1 ∧ (∀ rest, NonBlank (m.2 ++ rest)) ∧ Skips s m.2)
    (options : TextOptions) (level : ℕ) :
    Skips s (enclosed options level s.format.objectBegin s.format.objectEnd
      (members.map fun m => (s.styled options).memberName (ascii m.1) ++ m.2)) := by
  rcases hs with hjson | hstring
  · intro depth hdepth state nesting trail P hseparates
    have hs : s.Known := .inl hjson
    have hbegin : s.format.objectBegin = [0x7B] := by rw [hjson]; rfl
    have hend : s.format.objectEnd = [0x7D] := by rw [hjson]; rfl
    have htry : tryReadObjectEnd s (state :: nesting) = tryEnd s (state :: nesting) [0x7D] := by
      rw [← hend]
      rfl
    have hloop : ReadsBefore P (loop (tryReadObjectEnd s (state :: nesting)) (fun _ => do
          let _ ← readObjectMemberName s (.object :: state :: nesting)
          skipDepth s depth (.object :: state :: nesting)) (fun _ => .hangs) ())
        (separated options (level + 1) true
          (members.map fun m => (s.styled options).memberName (ascii m.1) ++ m.2) ++
            (newLine options level ++ ([0x7D] ++ trail))) () := by
      rw [htry]
      refine readsBefore_loop hs (.inr hend) (fun text htext => ?_)
        (readsBefore_finalizeRead hs hseparates state nesting) options level
      obtain ⟨m, hm, rfl⟩ := List.mem_map.mp htext
      obtain ⟨hname, hbegins, hskips⟩ := h m hm
      have hlength : m.2.length < depth := by
        have hmember : ((s.styled options).memberName (ascii m.1) ++ m.2).length < (enclosed options level
            s.format.objectBegin s.format.objectEnd _).length :=
          length_lt_enclosed (by rw [hbegin]; exact List.cons_ne_nil 0x7B []) htext
        rw [List.length_append] at hmember
        omega
      exact ⟨opens_member hs _ _, fun trail P hseparates => readsBefore_skipMember hs hname hbegins
        (fun gap hgap => hskips.readsBefore hbegins hlength hgap hseparates) options⟩
    have hword : enclosed options level s.format.objectBegin s.format.objectEnd
        (members.map fun m => (s.styled options).memberName (ascii m.1) ++ m.2) ++ trail =
        [0x7B] ++ (separated options (level + 1) true
          (members.map fun m => (s.styled options).memberName (ascii m.1) ++ m.2) ++
            (newLine options level ++ ([0x7D] ++ trail))) := by
      simp [enclosed, hbegin, hend]
    have hobjectBegin : ReadsBefore (fun _ => True) (consumeTokenAfterWhitespace s.format.objectBegin)
        [0x7B] () := by
      rw [hbegin]
      exact (reads_consumeTokenAfterWhitespace blank_nil (by decide) []).before
    have hread : ReadsBefore P (do
        consumeTokenAfterWhitespace s.format.objectBegin
        loop (tryReadObjectEnd s (state :: nesting)) (fun _ => do
          let _ ← readObjectMemberName s (.object :: state :: nesting)
          skipDepth s depth (.object :: state :: nesting)) (fun _ => .hangs) ()
        return true) _ true := hobjectBegin.bind (fun _ _ => trivial) hloop.bind_pure
    rw [hword]
    refine .stop (readsBefore_input (fun rest _ => ?_) hread)
    rw [List.append_assoc, hjson]
    rfl
  · have harray : s.format.objectBegin = s.format.arrayBegin ∧ s.format.objectEnd = s.format.arrayEnd := by
      rw [hstring]
      exact ⟨rfl, rfl⟩
    rw [harray.1, harray.2]
    refine skips_array (.inr hstring) (b := 0x7D) (by rw [hstring]; rfl) (fun text htext => ?_) options level
    obtain ⟨m, hm, rfl⟩ := List.mem_map.mp htext
    obtain ⟨hname, -, hskips⟩ := h m hm
    exact ⟨opens_member (.inr hstring) _ _, hskips.append (.inr hstring) (plain_memberName hstring hname)⟩

end TextSerializer

/-! ## Names and texts of other libraries -/

theorem spelledEnum_iff {name : String} {es : List EnumeratorDescriptor} :
    TextSerializer.SpelledEnum name es ↔ IsIdentifier name ∧ (es.map EnumeratorDescriptor.name).Nodup ∧
      ∀ e ∈ es, IsIdentifier e.name ∧ e.name ≠ "" :=
  ⟨fun h => ⟨h.name, h.nodup, h.enumerators⟩, fun h => ⟨h.1, h.2.1, h.2.2⟩⟩

instance (name : String) (es : List EnumeratorDescriptor) : Decidable (TextSerializer.SpelledEnum name es) :=
  decidable_of_iff _ spelledEnum_iff.symm

/-- The name of a struct, where it is written. -/
def TextSerializer.SpelledName (s : TextSerializer) (ps : PropertyDescriptors) : Prop :=
  s.format.objectFormat = .withTypeName → IsIdentifier (s.structName ps) ∧ s.structName ps ≠ ""

instance (ps : PropertyDescriptors) : Decidable (s.SpelledName ps) :=
  inferInstanceAs (Decidable (_ → _ ∧ _))

mutual

/-- Names are identifiers, those of the properties of a struct and of the enumerators of an enum
distinct, at every level. -/
def TypeDescriptor.Spelled (s : TextSerializer) : TypeDescriptor → Prop
  | .fundamental _ => True
  | .enumeration name es => s.format.enumFormat = .identifier → TextSerializer.SpelledEnum name es
  | .vector d => d.Spelled s
  | .struct ps => s.SpelledName ps ∧ ps.Spelled s

def PropertyDescriptors.Spelled (s : TextSerializer) : PropertyDescriptors → Prop
  | .nil => True
  | .cons p d ps => IsIdentifier p.name ∧ p.name ∉ ps.names ∧ d.Spelled s ∧ ps.Spelled s

end

mutual

instance TypeDescriptor.decidableSpelled (s : TextSerializer) :
    (d : TypeDescriptor) → Decidable (d.Spelled s)
  | .fundamental _ => .isTrue trivial
  | .enumeration name es =>
    inferInstanceAs (Decidable (s.format.enumFormat = .identifier → TextSerializer.SpelledEnum name es))
  | .vector d => d.decidableSpelled s
  | .struct ps =>
    have := ps.decidableSpelled s
    inferInstanceAs (Decidable (s.SpelledName ps ∧ ps.Spelled s))

instance PropertyDescriptors.decidableSpelled (s : TextSerializer) :
    (ps : PropertyDescriptors) → Decidable (ps.Spelled s)
  | .nil => .isTrue trivial
  | .cons p d ps =>
    have := d.decidableSpelled s
    have := ps.decidableSpelled s
    inferInstanceAs (Decidable (IsIdentifier p.name ∧ p.name ∉ ps.names ∧ d.Spelled s ∧ ps.Spelled s))

end

/-- What other libraries write for a floating-point value, a time or a uuid can stand in a text. -/
def TextSerializer.Converts (s : TextSerializer) : Prop := ∀ (t : FundamentalType) (v : t.Value), t.Written s v

namespace TextSerializer

/-! ## Values that are skipped -/

theorem plain_number (h : NumberText text) : ∀ b ∈ text, Plain b := by
  have hall : ∀ b ∈ numberSymbols, Plain b := by decide +kernel
  exact fun b hb => hall b (h.2 b hb)

theorem plain_suffixText {hasSuffix : Bool} {str : List UInt8} (h : ∀ b ∈ str, Plain b) :
    ∀ b ∈ s.suffixText hasSuffix str, Plain b := by
  rw [suffixText]
  split_ifs
  · exact h
  · intro b hb
    cases hb

theorem plain_integerText {base : ℕ} (hbase : base = 10 ∨ base = 2) (isUnsigned : Bool) (value : ℤ) :
    ∀ b ∈ s.integerText base isUnsigned value, Plain b := by
  have hdigits : ∀ b ∈ toChars base value, Plain b := by
    have hall : ∀ b ∈ ascii "-" ++ ascii "0123456789", Plain b := by decide +kernel
    exact fun b hb => hall b (mem_toChars (by omega) (by omega) value b hb)
  have hsuffix : ∀ b ∈ s.suffixText (s.format.integerFormat = .withSignSuffix ∧ isUnsigned) (ascii "u"),
      Plain b := plain_suffixText (by decide +kernel)
  intro b hb
  rw [integerText] at hb
  simp only [List.mem_append] at hb
  rcases hb with (hb | hb) | hb
  · revert b
    rcases hbase with rfl | rfl <;> decide +kernel
  · exact hdigits b hb
  · exact hsuffix b hb

theorem skips_fundamentalText (hs : s.Known) (t : FundamentalType) (v : t.Value) (hv : t.Written s v) :
    Skips s ((s.styled options).fundamentalText t v) := by
  have hinteger {base : ℕ} (hbase : base = 10 ∨ base = 2) (isUnsigned : Bool) (value : ℤ) :
      Skips s ((s.styled options).integerText base isUnsigned value) :=
    skips_plain hs (plain_integerText hbase isUnsigned value)
  have hfloat64 (v : BitVec 64) (hv : ParsedBy s.converters.strtod (float64Text s.converters v)) :
      Skips s (float64Text s.converters v) := skips_plain hs (plain_number hv.1)
  have hquoted {str : List UInt8} (h : Quotable str) : Skips s (quoted str) :=
    skips_string hs (reads_unescaped h.1 h.2)
  cases t with
  | boolean =>
    have hall : ∀ v : Bool, ∀ b ∈ if v then ascii "true" else ascii "false", Plain b := by decide +kernel
    exact skips_plain hs (hall v)
  | int8 | int16 | int32 | int64 => exact hinteger (.inl rfl) false _
  | uint8 | uint16 | uint32 | uint64 => exact hinteger (.inl rfl) true _
  | propertySet =>
    refine hinteger ?_ true _
    cases (s.styled options).format.propertySetFormat <;> simp
  | float32 =>
    exact (skips_plain hs (plain_suffixText (by decide +kernel))).append hs (plain_number hv.1)
  | float64 | steadyTimepoint | duration => exact hfloat64 v hv
  | timepoint =>
    have hstyled : (s.styled options).format = s.format := rfl
    cases hformat : s.format.timepointFormat with
    | fractionalSeconds =>
      simp only [FundamentalType.Written, hformat] at hv
      simp only [fundamentalText, hstyled, hformat]
      exact hfloat64 v hv
    | iso8601String =>
      simp only [FundamentalType.Written, hformat] at hv
      simp only [fundamentalText, hstyled, hformat]
      exact hquoted hv
  | uuid => exact hquoted hv
  | string => exact skips_string hs (reads_escaped v.1)

/-- The strings of a value are names and a text: each of them is skipped, and all of them as one. -/
inductive SkipsAll (s : TextSerializer) : List (List UInt8) → Prop
  | mk {names : List (List UInt8)} {text : List UInt8}
      (hnames : ∀ name ∈ names, Begins s name ∧ ∀ b ∈ name, Plain b) (begins : Begins s text)
      (skips : Skips s text) : SkipsAll s (names ++ [text])

theorem skipsAll_singleton (hbegins : Begins s text) (hskips : Skips s text) : SkipsAll s [text] :=
  have hnames : ∀ name ∈ ([] : List (List UInt8)), Begins s name ∧ ∀ b ∈ name, Plain b := nofun
  .mk hnames hbegins hskips

theorem SkipsAll.each (hs : s.Known) {texts : List (List UInt8)} (h : SkipsAll s texts) :
    ∀ text ∈ texts, Begins s text ∧ Skips s text := by
  cases h with
  | mk hnames begins skips =>
    intro text htext
    rcases List.mem_append.mp htext with hname | htext
    · exact ⟨(hnames text hname).1, skips_plain hs (hnames text hname).2⟩
    · obtain rfl := List.mem_singleton.mp htext
      exact ⟨begins, skips⟩

theorem SkipsAll.flatten (hs : s.Known) {texts : List (List UInt8)} (h : SkipsAll s texts) :
    (∀ rest, NonBlank (texts.flatten ++ rest)) ∧ Skips s texts.flatten := by
  cases h with
  | @mk names text hnames begins skips =>
    rw [List.flatten_concat]
    refine ⟨fun rest => ?_, skips.append hs fun b hb => ?_⟩
    · cases names with
      | nil => exact begins.nonBlank rest
      | cons name names =>
        rw [List.flatten_cons, List.append_assoc, List.append_assoc]
        exact (hnames name List.mem_cons_self).1.nonBlank _
    · obtain ⟨name, hname, hb⟩ := List.mem_flatten.mp hb
      exact (hnames name hname).2 b hb

theorem begins_enclosed_array (hs : s.Known) (options : TextOptions) (level : ℕ)
    (texts : List (List UInt8)) :
    Begins s (enclosed options level s.format.arrayBegin s.format.arrayEnd texts) := by
  have hbegin : s.format = JsonFormat ∧ s.format.arrayBegin = [0x5B] ∨
      s.format = StringFormat ∧ s.format.arrayBegin = [0x7B] := by
    rcases hs with hs | hs
    · exact .inl ⟨hs, by rw [hs]; rfl⟩
    · exact .inr ⟨hs, by rw [hs]; rfl⟩
  rw [enclosed]
  rcases hbegin with ⟨-, hbegin⟩ | ⟨-, hbegin⟩ <;> rw [hbegin]
  · exact begins_of_head hs (by decide) (fun _ => by decide) (fun _ => by decide) _
  · exact begins_of_head hs (by decide) (fun _ => by decide) (fun _ => by decide) _

theorem begins_enclosed_object (hs : s.Known) (options : TextOptions) (level : ℕ)
    (texts : List (List UInt8)) :
    Begins s (enclosed options level s.format.objectBegin s.format.objectEnd texts) := by
  obtain ⟨-, -, -, -, hbegin, -⟩ := hs.brackets
  rw [enclosed, hbegin]
  exact begins_of_head hs (by decide) (fun _ => by decide) (fun _ => by decide) _

/-- The names of types. -/
theorem typeName_spec (hs : s.Known) {ps : PropertyDescriptors} (hname : s.SpelledName ps)
    (outermost : Bool) : ∀ name ∈ (s.styled options).typeName outermost ps,
      Begins s name ∧ ∀ b ∈ name, Plain b := by
  have htext : s.format.objectFormat = .withTypeName →
      Begins s (ascii (s.structName ps)) ∧ ∀ b ∈ ascii (s.structName ps), Plain b := by
    intro hformat
    have hstring : s.format = StringFormat := hs.resolve_left fun hjson => by
      rw [hjson] at hformat
      cases hformat
    obtain ⟨hidentifier, hne⟩ := hname hformat
    have hbegins := begins_identifier hstring hidentifier hne []
    rw [List.append_nil] at hbegins
    exact ⟨hbegins, plain_identifier hidentifier⟩
  intro name hmem
  have hformat : (s.styled options).format = s.format := rfl
  have hstruct : (s.styled options).structName = s.structName := rfl
  rw [typeName, hformat, hstruct] at hmem
  split at hmem
  · next h _ =>
    split_ifs at hmem
    · exact List.mem_singleton.mp hmem ▸ htext h
    · cases hmem
  · next h _ => exact List.mem_singleton.mp hmem ▸ htext h
  · cases hmem

theorem skipsAll_struct (hs : s.Known) {ps : PropertyDescriptors} (hname : s.SpelledName ps)
    (outermost : Bool) (level : ℕ) {members : List (String × List UInt8)}
    (h : ∀ m ∈ members, IsIdentifier m.1 ∧ (∀ rest, NonBlank (m.2 ++ rest)) ∧ Skips s m.2) :
    SkipsAll s ((s.styled options).typeName outermost ps ++
      [enclosed options level s.format.objectBegin s.format.objectEnd
        (members.map fun m => (s.styled options).memberName (ascii m.1) ++ m.2)]) :=
  .mk (typeName_spec hs hname outermost) (begins_enclosed_object hs options level _)
    (skips_object hs h options level)

theorem skips_null (hs : s.Known) :
    (∀ rest, NonBlank (s.format.nullValue ++ rest)) ∧ Skips s s.format.nullValue := by
  refine ⟨fun rest c hc => ?_, skips_plain hs ?_⟩
  · rcases hs with hs | hs
    all_goals
      rw [hs] at hc
      cases hc
      rfl
  · rcases hs with hs | hs <;> rw [hs] <;> decide +kernel

theorem skips_enumeratorText (hs : s.Known) {name : String} {es : List EnumeratorDescriptor}
    (hes : s.format.enumFormat = .identifier → SpelledEnum name es) {e : EnumeratorDescriptor}
    (he : e ∈ es) : Skips s ((s.styled options).enumeratorText name e) := by
  cases hformat : s.format.enumFormat with
  | tag =>
    rw [enumeratorText_tag hformat]
    exact skips_plain hs (plain_integerText (.inl rfl) true _)
  | identifier =>
    have hname := plain_identifier (hes hformat).name
    have hshort := plain_identifier ((hes hformat).enumerators e he).1
    rw [enumeratorText_identifier hformat]
    refine skips_plain hs fun b hb => ?_
    split_ifs at hb
    · simp only [List.mem_append] at hb
      rcases hb with (hb | hb) | hb
      · exact hname b hb
      · revert b
        decide +kernel
      · exact hshort b hb
    · exact hshort b hb

mutual

/-- **Whatever is written for a value** is skipped. -/
theorem skips_valueTexts (hs : s.Known) (hw : s.Converts) : (d : TypeDescriptor) → (v : Value d) →
    d.Spelled s → ∀ level texts, (s.styled options).valueTexts level d v = .ok texts →
    SkipsAll s texts
  | .fundamental t, v, _, level, texts, h => by
    rw [valueTexts] at h
    cases h
    exact skipsAll_singleton (begins_fundamentalText hs t v (hw t v)) (skips_fundamentalText hs t v (hw t v))
  | .enumeration name es, v, hd, level, texts, h => by
    rw [valueTexts] at h
    obtain ⟨e, he, h⟩ := bind_eq_ok h
    cases h
    obtain ⟨hmem, rfl⟩ := CborSerializer.enumeratorFromValue_eq_ok he
    exact skipsAll_singleton (begins_enumeratorText hs hd hmem) (skips_enumeratorText hs hd hmem)
  | .vector d, vs, hd, level, texts, h => by
    rw [valueTexts] at h
    obtain ⟨items, hitems, h⟩ := bind_eq_ok h
    cases h
    refine skipsAll_singleton (begins_enclosed_array hs options level _) ?_
    obtain ⟨-, b, -, harrayEnd, -⟩ := hs.brackets
    refine skips_array hs harrayEnd (fun text htext => ?_) options level
    obtain ⟨item, hitem, htext⟩ := List.mem_flatten.mp htext
    obtain ⟨v, -, hitem⟩ := exists_of_mem_right (forall₂_of_mapM hitems) hitem
    obtain ⟨hbegins, hskips⟩ := (skips_valueTexts hs hw d v hd (level + 1) item hitem).each hs
      text htext
    exact ⟨⟨hbegins.ne_nil, hbegins.nonBlank, harrayEnd ▸ hbegins.not_end⟩, hskips⟩
  | .struct ps, x, hd, level, texts, h => by
    rw [valueTexts] at h
    obtain ⟨members, hmembers, h⟩ := bind_eq_ok h
    cases h
    obtain ⟨members, rfl, hskips⟩ := skips_memberTexts hs hw ps x hd.2 (level + 1) _ members hmembers
    exact skipsAll_struct hs hd.1 false level hskips

theorem skips_memberTexts (hs : s.Known) (hw : s.Converts) : (ps : PropertyDescriptors) →
    (x : Instance ps) → ps.Spelled s → ∀ level included texts,
    (s.styled options).memberTexts level included ps x = .ok texts →
    ∃ members : List (String × List UInt8),
      texts = members.map (fun m => (s.styled options).memberName (ascii m.1) ++ m.2) ∧
        ∀ m ∈ members, IsIdentifier m.1 ∧ (∀ rest, NonBlank (m.2 ++ rest)) ∧ Skips s m.2
  | .nil, _, _, level, included, texts, h => by
    rw [memberTexts] at h
    cases h
    exact ⟨[], rfl, nofun⟩
  | .cons p d ps, (v, x), hps, level, included, texts, h => by
    simp only [memberTexts] at h
    split_ifs at h with hp
    · obtain ⟨value, hvalue, h⟩ := bind_eq_ok h
      obtain ⟨rest, hrest, h⟩ := bind_eq_ok h
      cases h
      obtain ⟨members, rfl, hskips⟩ := skips_memberTexts hs hw ps x hps.2.2.2 level included rest hrest
      refine ⟨(p.name, value.flatten) :: members, rfl, List.forall_mem_cons.mpr ⟨⟨hps.1, ?_⟩, hskips⟩⟩
      cases v with
      | none =>
        cases hvalue
        rw [List.flatten_singleton]
        exact skips_null hs
      | some v => exact (skips_valueTexts hs hw d v hps.2.2.1 level value hvalue).flatten hs
    · exact skips_memberTexts hs hw ps x hps.2.2.2 level included texts h

end

end TextSerializer

end Dots
