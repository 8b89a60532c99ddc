import Mathlib.Data.Nat.Bitwise
import Mathlib.Order.Basic

/-!
# Parsers that stop

* `Cursor`, `Parse`: a position in a list of symbols, and a computation that moves it or stops
  with an error; `next`, `look`, `take`, `replicate`, `iterate`.
* `Reads m w a`: on the word `w`, whatever follows, `m` returns `a` and stands behind `w`.
* **`Reads.bind`**, **`Reads.replicate`**, **`Words.reads_iterate`**: words are read one after the other.
* `ReadsBefore P m w a`: the same if what follows satisfies `P`; `loop`, **`Rounds.readsBefore`**.
* `Behaves P m w r`: the same for a run that may stop with an error; `RoundsTo`.
* `AgreeUpTo n m m'`: two parsers do the same as long as at most `n` symbols lie ahead.
* `Together R stops m m'`: two parsers go through the same symbols and return related values, unless
  the second stops with an error that `stops` names.
* `Local lacks m`: what `m` does does not depend on what follows, unless it lacks symbols.
* `Precondition ok m g`, `Passes ok m g`: `g` tells from the remaining symbols whether `m` ends
  well and meets a demand, or stops with an error that is `ok`.
* **`Precondition.then`**, **`Passes.bind`**, **`Passes.replicate`**, **`Passes.iterate`**.
* `PreconditionOf ok part m g`: the same for demands on a part of the result;
  **`PreconditionOf.iterate`**.
-/

set_option autoImplicit false

/-- The symbols that remain, and how many have been passed. -/
structure Cursor (σ : Type) where
  offset : ℕ
  rest : List σ
  deriving DecidableEq

namespace Cursor

variable {σ : Type} {c d e : Cursor σ} {n m : ℕ}

/-- The number of symbols of the whole input. -/
def size (c : Cursor σ) : ℕ := c.offset + c.rest.length

/-- The cursor `n` symbols further on. -/
def advance (c : Cursor σ) (n : ℕ) : Cursor σ := ⟨c.offset + n, c.rest.drop n⟩

/-- A cursor some symbols further on. -/
def Leads (c d : Cursor σ) : Prop := ∃ n, n ≤ c.rest.length ∧ d = c.advance n

@[simp] theorem rest_advance : (c.advance n).rest = c.rest.drop n := rfl

@[simp] theorem advance_zero : c.advance 0 = c := by
  simp [advance]

theorem advance_advance : (c.advance n).advance m = c.advance (n + m) := by
  simp [advance, Nat.add_assoc]

theorem size_advance (h : n ≤ c.rest.length) : (c.advance n).size = c.size := by
  simp only [size, advance, List.length_drop]
  omega

theorem Leads.refl (c : Cursor σ) : c.Leads c := ⟨0, Nat.zero_le _, advance_zero.symm⟩

theorem Leads.trans (h : c.Leads d) (h' : d.Leads e) : c.Leads e := by
  obtain ⟨n, hn, rfl⟩ := h
  obtain ⟨m, hm, rfl⟩ := h'
  rw [rest_advance, List.length_drop] at hm
  exact ⟨n + m, by omega, advance_advance⟩

theorem Leads.size_eq (h : c.Leads d) : d.size = c.size := by
  obtain ⟨n, hn, rfl⟩ := h
  exact size_advance hn

end Cursor

/-- A computation on a cursor that may stop with an error. -/
abbrev Parse (σ ε : Type) := StateT (Cursor σ) (Except ε)

namespace Parse

variable {σ ε α β : Type}

/-- Stop with an error that tells the position. -/
def fail (e : Cursor σ → ε) : Parse σ ε α := fun c => .error (e c)

/-- The next symbols, without moving. -/
def look (e : Cursor σ → ε) (n : ℕ) : Parse σ ε {w : List σ // w.length = n} := fun c =>
  if h : n ≤ c.rest.length then .ok (⟨c.rest.take n, List.length_take_of_le h⟩, c)
  else .error (e c)

/-- The next symbols. -/
def take (e : Cursor σ → ε) (n : ℕ) : Parse σ ε {w : List σ // w.length = n} := fun c =>
  if h : n ≤ c.rest.length then .ok (⟨c.rest.take n, List.length_take_of_le h⟩, c.advance n)
  else .error (e c)

/-- The next symbol. -/
def next (e : Cursor σ → ε) : Parse σ ε σ := fun c =>
  match c.rest with
  | [] => .error (e c)
  | a :: _ => .ok (a, c.advance 1)

/-- The results of `n` runs, one after the other. -/
def replicate (m : Parse σ ε α) : (n : ℕ) → Parse σ ε {as : List α // as.length = n}
  | 0 => pure ⟨[], rfl⟩
  | n + 1 => do
    let a ← m
    let as ← replicate m n
    return ⟨a :: as.1, congrArg Nat.succ as.2⟩

/-- A value changed `n` times. -/
def iterate (f : α → Parse σ ε α) : ℕ → α → Parse σ ε α
  | 0, a => pure a
  | n + 1, a => do iterate f n (← f a)

/-! ## Reading a given word -/

/-- On the word `w`, whatever follows, `m` returns `a` and stands behind `w`. -/
def Reads (m : Parse σ ε α) (w : List σ) (a : α) : Prop :=
  ∀ o rest, m.run ⟨o, w ++ rest⟩ = .ok (a, ⟨o + w.length, rest⟩)

variable {m : Parse σ ε α} {f : α → Parse σ ε β} {e : Cursor σ → ε} {w u : List σ} {a : α} {b : β}

theorem Reads.pure (a : α) : Reads (pure a : Parse σ ε α) [] a := fun _ _ => rfl

/-- Behind the word, what comes next runs. -/
theorem Reads.run_bind (h : Reads m w a) (o : ℕ) (rest : List σ) :
    (m >>= f).run ⟨o, w ++ rest⟩ = (f a).run ⟨o + w.length, rest⟩ := by
  rw [StateT.run_bind, h]
  rfl

theorem Reads.bind (h : Reads m w a) (h' : Reads (f a) u b) : Reads (m >>= f) (w ++ u) b := by
  intro o rest
  rw [List.append_assoc, h.run_bind, h', List.length_append, Nat.add_assoc]

theorem Reads.map (g : α → β) (h : Reads m w a) : Reads (g <$> m) w (g a) := by
  intro o rest
  rw [StateT.run_map, h]
  rfl

/-- What reads no word comes first. -/
theorem Reads.bind_nil (h : Reads m [] a) (h' : Reads (f a) w b) : Reads (m >>= f) w b :=
  h.bind h'

/-- What reads no word comes last. -/
theorem Reads.bind_pure {g : α → β} (h : Reads m w a) :
    Reads (m >>= fun a => Pure.pure (g a)) w (g a) := by
  simpa using h.bind (f := fun a => Pure.pure (g a)) (.pure (g a))

theorem reads_next (a : σ) : Reads (next e) [a] a := fun _ _ => rfl

theorem reads_take (w : List σ) : Reads (take e w.length) w ⟨w, rfl⟩ := by
  intro o rest
  simp [take, StateT.run, Cursor.advance]

/-- A word for each run. -/
theorem Reads.replicate {ws : List (List σ)} {as : List α}
    (h : List.Forall₂ (Reads m) ws as) :
    Reads (Parse.replicate m as.length) ws.flatten ⟨as, rfl⟩ := by
  induction h with
  | nil => exact .pure _
  | cons h _ ih => exact h.bind ih.bind_pure

/-- The words that change a value step by step. -/
inductive Words (f : α → Parse σ ε α) : α → List (List σ) → α → Prop
  | nil (a : α) : Words f a [] a
  | cons {a b c : α} {w : List σ} {ws : List (List σ)} (h : Reads (f a) w b) (r : Words f b ws c) :
      Words f a (w :: ws) c

theorem Words.reads_iterate {f : α → Parse σ ε α} {a b : α} {ws : List (List σ)} (h : Words f a ws b) :
    Reads (Parse.iterate f ws.length a) ws.flatten b := by
  induction h with
  | nil a => exact .pure a
  | cons h _ ih => exact h.bind ih

/-! ## Reading a word before others -/

/-- On the word `w`, if what follows satisfies `P`, `m` returns `a` and stands behind `w`. -/
def ReadsBefore (P : List σ → Prop) (m : Parse σ ε α) (w : List σ) (a : α) : Prop :=
  ∀ o rest, P rest → m.run ⟨o, w ++ rest⟩ = .ok (a, ⟨o + w.length, rest⟩)

variable {P Q : List σ → Prop}

theorem Reads.before (h : Reads m w a) : ReadsBefore P m w a := fun o rest _ => h o rest

theorem ReadsBefore.pure (a : α) : ReadsBefore P (pure a : Parse σ ε α) [] a := fun _ _ _ => rfl

theorem ReadsBefore.bind (h : ReadsBefore P m w a) (hP : ∀ rest, Q rest → P (u ++ rest))
    (h' : ReadsBefore Q (f a) u b) : ReadsBefore Q (m >>= f) (w ++ u) b := by
  intro o rest hrest
  rw [List.append_assoc, StateT.run_bind, h o _ (hP rest hrest)]
  show (f a).run _ = _
  rw [h' _ _ hrest, List.length_append, Nat.add_assoc]

theorem ReadsBefore.bind_pure {g : α → β} (h : ReadsBefore P m w a) :
    ReadsBefore P (m >>= fun a => Pure.pure (g a)) w (g a) := by
  intro o rest hrest
  rw [StateT.run_bind, h o rest hrest]
  rfl

theorem ReadsBefore.map (g : α → β) (h : ReadsBefore P m w a) : ReadsBefore P (g <$> m) w (g a) := by
  intro o rest hrest
  rw [StateT.run_map, h o rest hrest]
  rfl

/-- What does not move comes first. -/
theorem ReadsBefore.bind_nil (h : ReadsBefore P m [] a) (hP : ∀ rest, Q rest → P (w ++ rest))
    (h' : ReadsBefore Q (f a) w b) : ReadsBefore Q (m >>= f) w b := h.bind hP h'

/-- What reads no word comes last. -/
theorem ReadsBefore.bind_nil_right (h : ReadsBefore P m w a) (h' : ReadsBefore P (f a) [] b) :
    ReadsBefore P (m >>= f) w b := by
  have hbind := h.bind (u := []) (fun _ h => h) h'
  rwa [List.append_nil] at hbind

theorem ReadsBefore.mono (h : ReadsBefore P m w a) (hP : ∀ rest, Q rest → P rest) :
    ReadsBefore Q m w a := fun o rest hrest => h o rest (hP rest hrest)

/-- A value changed until `stop` says so, at most `n` times. -/
def untilStop (stop : Parse σ ε Bool) (body : α → Parse σ ε α) (e : Cursor σ → ε) :
    ℕ → α → Parse σ ε α
  | 0, _ => fail e
  | n + 1, a => do
    if ← stop then return a else untilStop stop body e n (← body a)

/-- A value changed until `stop` says so; `e` says that there are more rounds than symbols. -/
def loop (stop : Parse σ ε Bool) (body : α → Parse σ ε α) (e : Cursor σ → ε) (a : α) :
    Parse σ ε α := fun c => (untilStop stop body e (c.rest.length + 1) a).run c

/-- A word that goes through the rounds of a loop from one value to another. -/
inductive Rounds (P : List σ → Prop) (stop : Parse σ ε Bool) (body : α → Parse σ ε α) :
    α → List σ → α → Prop
  | stop {a : α} {w : List σ} (h : ReadsBefore P stop w true) : Rounds P stop body a w a
  | round {a b c : α} {w u v : List σ} {Q Q' : List σ → Prop} (h : ReadsBefore Q stop w false)
      (hQ : ∀ rest, P rest → Q (u ++ (v ++ rest))) (h' : ReadsBefore Q' (body a) u b)
      (hQ' : ∀ rest, P rest → Q' (v ++ rest)) (moves : u ≠ []) (r : Rounds P stop body b v c) :
      Rounds P stop body a (w ++ (u ++ v)) c

/-- **A loop** reads the word of its rounds. -/
theorem Rounds.readsBefore {stop : Parse σ ε Bool} {body : α → Parse σ ε α} {a b : α}
    (h : Rounds P stop body a w b) : ReadsBefore P (loop stop body e a) w b := by
  have huntil : ∀ n, w.length < n → ReadsBefore P (untilStop stop body e n a) w b := by
    induction h with
    | @stop a w h =>
      rintro (_ | n) hn
      · omega
      · intro o rest hrest
        rw [untilStop, StateT.run_bind, h o rest hrest]
        rfl
    | @round a b c w u v Q Q' h hQ h' hQ' moves r ih =>
      rintro (_ | n) hn
      · omega
      · have hlength := List.length_pos_iff.mpr moves
        rw [List.length_append, List.length_append] at hn
        refine h.bind (fun rest hrest => ?_) (h'.bind hQ' (ih n (by omega)))
        rw [List.append_assoc]
        exact hQ rest hrest
  intro o rest hrest
  refine huntil _ ?_ o rest hrest
  rw [List.length_append]
  omega

/-! ## Results and errors -/

/-- On the word `w`, if what follows satisfies `P`, `m` returns the result and stands behind `w`, or
stops with an error if there is none. -/
def Behaves (P : List σ → Prop) (m : Parse σ ε α) (w : List σ) (r : Option α) : Prop :=
  ∀ o rest, P rest →
    (m.run ⟨o, w ++ rest⟩).toOption = r.map fun a => (a, ⟨o + w.length, rest⟩)

section Behaves

variable {r : Option α} {g : α → Option β}

theorem behaves_some_iff : Behaves P m w (some a) ↔ ReadsBefore P m w a := by
  refine forall_congr' fun o => forall_congr' fun rest => imp_congr_right fun _ => ?_
  cases m.run ⟨o, w ++ rest⟩ with
  | error e => exact iff_of_false nofun nofun
  | ok p => exact ⟨fun h => congrArg Except.ok (Option.some.inj h), fun h => by rw [h]; rfl⟩

theorem ReadsBefore.behaves (h : ReadsBefore P m w a) : Behaves P m w (some a) :=
  behaves_some_iff.mpr h

theorem behaves_fail : Behaves P (fail e : Parse σ ε α) w none := fun _ _ _ => rfl

theorem Behaves.mono (h : Behaves P m w r) (hP : ∀ rest, Q rest → P rest) : Behaves Q m w r :=
  fun o rest hrest => h o rest (hP rest hrest)

/-- An error does not depend on where the word ends. -/
theorem Behaves.none_append (h : Behaves P m w none) (hP : ∀ rest, Q rest → P (u ++ rest)) :
    Behaves Q m (w ++ u) none := by
  intro o rest hrest
  rw [List.append_assoc]
  exact h o _ (hP rest hrest)

/-- **One after the other.** -/
theorem Behaves.bind (h : Behaves P m w r) (hP : ∀ rest, Q rest → P (u ++ rest))
    (h' : ∀ a ∈ r, Behaves Q (f a) u (g a)) : Behaves Q (m >>= f) (w ++ u) (r.bind g) := by
  intro o rest hrest
  have hm := h o _ (hP rest hrest)
  rw [List.append_assoc, StateT.run_bind]
  cases r with
  | none =>
    cases hrun : m.run ⟨o, w ++ (u ++ rest)⟩ with
    | error e => rfl
    | ok p => rw [hrun] at hm; cases hm
  | some a =>
    cases hrun : m.run ⟨o, w ++ (u ++ rest)⟩ with
    | error e => rw [hrun] at hm; cases hm
    | ok p =>
      rw [hrun] at hm
      obtain rfl := Option.some.inj hm
      have hf := h' a rfl (o + w.length) rest hrest
      rw [Option.bind_some, List.length_append, ← Nat.add_assoc]
      exact hf

/-- What is read first. -/
theorem ReadsBefore.then {r : Option β} (h : ReadsBefore P m w a)
    (hP : ∀ rest, Q rest → P (u ++ rest)) (h' : Behaves Q (f a) u r) :
    Behaves Q (m >>= f) (w ++ u) r := by
  have hbind := h.behaves.bind (g := fun _ => r) hP fun _ ha => Option.mem_some.mp ha ▸ h'
  exact hbind

/-- What does not move comes first. -/
theorem ReadsBefore.then_nil {r : Option β} (h : ReadsBefore P m [] a)
    (hP : ∀ rest, Q rest → P (w ++ rest)) (h' : Behaves Q (f a) w r) : Behaves Q (m >>= f) w r :=
  h.then hP h'

/-- What is read last. -/
theorem Behaves.bind_reads {g : α → β} (h : Behaves P m w r)
    (hP : ∀ rest, Q rest → P (u ++ rest)) (h' : ∀ a ∈ r, ReadsBefore Q (f a) u (g a)) :
    Behaves Q (m >>= f) (w ++ u) (r.map g) := by
  rw [Option.map_eq_bind]
  exact h.bind hP fun a ha => (h' a ha).behaves

theorem Behaves.bind_pure {g : α → β} (h : Behaves P m w r) :
    Behaves P (m >>= fun a => Pure.pure (g a)) w (r.map g) := by
  have hbind := h.bind_reads (u := []) (Q := P) (f := fun a => Pure.pure (g a)) (fun _ h => h)
    fun a _ => .pure (g a)
  rwa [List.append_nil] at hbind

/-- A word that goes through the rounds of a loop to a result, or to an error in one of them. -/
inductive RoundsTo (P : List σ → Prop) (stop : Parse σ ε Bool) (body : α → Parse σ ε α) :
    α → List σ → Option α → Prop
  | stop {a : α} {w : List σ} (h : ReadsBefore P stop w true) : RoundsTo P stop body a w (some a)
  | round {a b : α} {w u v : List σ} {r : Option α} {Q Q' : List σ → Prop}
      (h : ReadsBefore Q stop w false) (hQ : ∀ rest, P rest → Q (u ++ (v ++ rest)))
      (h' : ReadsBefore Q' (body a) u b) (hQ' : ∀ rest, P rest → Q' (v ++ rest)) (moves : u ≠ [])
      (next : RoundsTo P stop body b v r) : RoundsTo P stop body a (w ++ (u ++ v)) r
  | fails {a : α} {w u : List σ} {Q : List σ → Prop} (h : ReadsBefore Q stop w false)
      (hQ : ∀ rest, P rest → Q (u ++ rest)) (h' : Behaves P (body a) u none) :
      RoundsTo P stop body a (w ++ u) none

/-- **A loop** behaves like its rounds. -/
theorem RoundsTo.behaves {stop : Parse σ ε Bool} {body : α → Parse σ ε α} {a : α} {r : Option α}
    (h : RoundsTo P stop body a w r) : Behaves P (loop stop body e a) w r := by
  have huntil : ∀ n, w.length < n → Behaves P (untilStop stop body e n a) w r := by
    induction h with
    | @stop a w h =>
      rintro (_ | n) hn
      · omega
      · have hstop := h.bind (f := fun done : Bool => if done = true then Pure.pure a else
          body a >>= untilStop stop body e n) (u := []) (Q := P) (fun _ h => by simpa using h) (.pure a)
        rw [List.append_nil] at hstop
        exact hstop.behaves
    | @round a b w u v r Q Q' h hQ h' hQ' moves next ih =>
      rintro (_ | n) hn
      · omega
      · have hlength := List.length_pos_iff.mpr moves
        rw [List.length_append, List.length_append] at hn
        refine h.then (fun rest hrest => ?_) (h'.then hQ' (ih n (by omega)))
        rw [List.append_assoc]
        exact hQ rest hrest
    | @fails a w u Q h hQ h' =>
      rintro (_ | n) hn
      · omega
      · have hbody := h'.bind (u := []) (Q := P) (f := untilStop stop body e n) (g := fun _ => none)
          (fun _ h => by simpa using h) fun _ ha => by cases ha
        rw [List.append_nil] at hbody
        exact h.then hQ hbody
  intro o rest hrest
  refine huntil _ ?_ o rest hrest
  rw [List.length_append]
  omega

end Behaves

/-! ## What lies ahead -/

/-- `m` does not move back. -/
def Forward (m : Parse σ ε α) : Prop :=
  ∀ c a c', m.run c = .ok (a, c') → c'.rest.length ≤ c.rest.length

theorem Forward.pure (a : α) : Forward (pure a : Parse σ ε α) := by
  rintro c b c' h
  cases h
  exact le_rfl

theorem Forward.fail (e : Cursor σ → ε) : Forward (fail e : Parse σ ε α) := by
  rintro c b c' h
  cases h

theorem forward_next : Forward (next e) := by
  rintro ⟨o, _ | ⟨a, w⟩⟩ b c' h
  · cases h
  · cases h
    exact Nat.le_succ _

theorem forward_take (n : ℕ) : Forward (take e n) := by
  rintro c b c' h
  simp only [take, StateT.run] at h
  split at h
  · cases h
    simp
  · cases h

theorem Forward.bind (h : Forward m) (h' : ∀ a, Forward (f a)) : Forward (m >>= f) := by
  intro c b c' hc
  rw [StateT.run_bind] at hc
  cases hm : m.run c with
  | error e => rw [hm] at hc; cases hc
  | ok r =>
    rw [hm] at hc
    exact (h' r.1 _ _ _ hc).trans (h _ _ _ hm)

theorem Forward.iterate {f : α → Parse σ ε α} (h : ∀ a, Forward (f a)) :
    ∀ n a, Forward (Parse.iterate f n a)
  | 0, a => .pure a
  | n + 1, a => (h a).bind (Forward.iterate h n)

/-- Two parsers do the same as long as at most `n` symbols lie ahead. -/
def AgreeUpTo (n : ℕ) (m m' : Parse σ ε α) : Prop :=
  ∀ c, c.rest.length ≤ n → m.run c = m'.run c

variable {n : ℕ} {m' : Parse σ ε α} {f' : α → Parse σ ε β}

theorem AgreeUpTo.refl (m : Parse σ ε α) : AgreeUpTo n m m := fun _ _ => rfl

theorem AgreeUpTo.bind (h : AgreeUpTo n m m') (hm : Forward m)
    (h' : ∀ a, AgreeUpTo n (f a) (f' a)) : AgreeUpTo n (m >>= f) (m' >>= f') := by
  intro c hc
  rw [StateT.run_bind, StateT.run_bind, ← h c hc]
  cases hr : m.run c with
  | error e => rfl
  | ok r => exact h' r.1 r.2 ((hm _ _ _ hr).trans hc)

theorem AgreeUpTo.iterate {f f' : α → Parse σ ε α} (h : ∀ a, AgreeUpTo n (f a) (f' a))
    (hf : ∀ a, Forward (f a)) :
    ∀ k a, AgreeUpTo n (Parse.iterate f k a) (Parse.iterate f' k a)
  | 0, _ => .refl _
  | k + 1, a => (h a).bind (hf a) (AgreeUpTo.iterate h hf k)

/-- Behind one symbol one symbol less lies ahead. -/
theorem AgreeUpTo.next {f f' : σ → Parse σ ε β} (h : ∀ a, AgreeUpTo n (f a) (f' a)) :
    AgreeUpTo (n + 1) (Parse.next e >>= f) (Parse.next e >>= f') := by
  rintro ⟨o, _ | ⟨a, w⟩⟩ hc
  · rfl
  · exact h a _ (Nat.le_of_succ_le_succ hc)

/-! ## Two parsers -/

/-- From each cursor, the parsers return related values at the same cursor, or stop with the same
error; the second may stop earlier, with an error that `stops` names. -/
def Together (R : α → β → Prop) (stops : ε → Prop) (m : Parse σ ε α) (m' : Parse σ ε β) : Prop :=
  ∀ c, match m.run c, m'.run c with
    | .ok (a, c₁), .ok (b, c₂) => R a b ∧ c₁ = c₂
    | .error _, .ok _ => False
    | .error e, .error e' => e' = e ∨ stops e'
    | .ok _, .error e' => stops e'

section Together

variable {R : α → β → Prop} {stops : ε → Prop} {p : Parse σ ε α} {q : Parse σ ε β}

theorem Together.refl {R : α → α → Prop} (hR : ∀ a, R a a) (p : Parse σ ε α) :
    Together R stops p p := by
  intro c
  cases p.run c with
  | error e => exact .inl rfl
  | ok r => exact ⟨hR r.1, rfl⟩

theorem Together.pure {a : α} {b : β} (h : R a b) :
    Together R stops (pure a : Parse σ ε α) (pure b : Parse σ ε β) := fun _ => ⟨h, rfl⟩

theorem Together.fail (e : Cursor σ → ε) : Together R stops (fail e : Parse σ ε α) (fail e) :=
  fun _ => .inl rfl

/-- The second stops. -/
theorem Together.stopped {e : Cursor σ → ε} (h : ∀ c, stops (e c)) :
    Together R stops p (Parse.fail e : Parse σ ε β) := by
  intro c
  show match p.run c, (Except.error (e c) : Except ε (β × Cursor σ)) with
    | .ok (a, c₁), .ok (b, c₂) => R a b ∧ c₁ = c₂
    | .error _, .ok _ => False
    | .error e, .error e' => e' = e ∨ stops e'
    | .ok _, .error e' => stops e'
  cases p.run c with
  | error _ => exact .inr (h c)
  | ok _ => exact h c

theorem Together.mono {R' : α → β → Prop} (h : Together R stops p q) (hR : ∀ a b, R a b → R' a b) :
    Together R' stops p q := by
  intro c
  have hc := h c
  cases hp : p.run c with
  | error e =>
    cases hq : q.run c with
    | error e' => rwa [hp, hq] at hc
    | ok r => rwa [hp, hq] at hc
  | ok r =>
    cases hq : q.run c with
    | error e' => rwa [hp, hq] at hc
    | ok r' =>
      rw [hp, hq] at hc
      exact ⟨hR _ _ hc.1, hc.2⟩

/-- What the second returns, if it stops only where the first does. -/
theorem Together.run_eq {g : α → β} (h : Together (fun a b => g a = b) (fun _ => False) p q)
    (c : Cursor σ) : q.run c = (p.run c).map fun r => (g r.1, r.2) := by
  have hc := h c
  cases hp : p.run c with
  | error e =>
    cases hq : q.run c with
    | error e' =>
      rw [hp, hq] at hc
      exact congrArg Except.error (hc.resolve_right id)
    | ok r' =>
      rw [hp, hq] at hc
      exact hc.elim
  | ok r =>
    cases hq : q.run c with
    | error e' =>
      rw [hp, hq] at hc
      exact hc.elim
    | ok r' =>
      rw [hp, hq] at hc
      exact congrArg Except.ok (Prod.ext hc.1.symm hc.2.symm)

/-- **One after the other.** -/
theorem Together.bind {γ δ : Type} {S : γ → δ → Prop} {f : α → Parse σ ε γ} {g : β → Parse σ ε δ}
    (h : Together R stops p q) (h' : ∀ a b, R a b → Together S stops (f a) (g b)) :
    Together S stops (p >>= f) (q >>= g) := by
  intro c
  have hc := h c
  rw [StateT.run_bind, StateT.run_bind]
  cases hp : p.run c with
  | error e =>
    cases hq : q.run c with
    | error e' =>
      rw [hp, hq] at hc
      exact hc
    | ok r =>
      rw [hp, hq] at hc
      exact hc.elim
  | ok r =>
    cases hq : q.run c with
    | error e' =>
      rw [hp, hq] at hc
      show match (f r.1).run r.2, (Except.error e' : Except ε (δ × Cursor σ)) with
        | .ok (a, c₁), .ok (b, c₂) => S a b ∧ c₁ = c₂
        | .error e, .ok _ => False
        | .error e, .error e' => e' = e ∨ stops e'
        | .ok _, .error e' => stops e'
      cases (f r.1).run r.2 with
      | error e => exact .inr hc
      | ok _ => exact hc
    | ok r' =>
      rw [hp, hq] at hc
      obtain ⟨hR, hsame⟩ := hc
      have hrest := h' r.1 r'.1 hR r.2
      obtain ⟨a, c₁⟩ := r
      obtain ⟨b, c₂⟩ := r'
      cases hsame
      exact hrest

/-- What the second does after the first has returned the same. -/
theorem Together.bind_left {γ δ : Type} {S : γ → δ → Prop} {f : α → Parse σ ε γ}
    {g : α → Parse σ ε δ} (p : Parse σ ε α) (h : ∀ a, Together S stops (f a) (g a)) :
    Together S stops (p >>= f) (p >>= g) :=
  (Together.refl (R := Eq) (fun _ => rfl) p).bind fun _ _ hab => hab ▸ h _

theorem Together.iterate {f : α → Parse σ ε α} {g : β → Parse σ ε β}
    (h : ∀ a b, R a b → Together R stops (f a) (g b)) :
    ∀ (n : ℕ) {a : α} {b : β}, R a b → Together R stops (iterate f n a) (iterate g n b)
  | 0, _, _, hab => .pure hab
  | n + 1, _, _, hab => (h _ _ hab).bind fun _ _ hab => Together.iterate h n hab

theorem Together.loop {stop : Parse σ ε Bool} {f : α → Parse σ ε α} {g : β → Parse σ ε β}
    {e : Cursor σ → ε} (h : ∀ a b, R a b → Together R stops (f a) (g b)) {a : α} {b : β}
    (hab : R a b) : Together R stops (loop stop f e a) (loop stop g e b) := by
  have huntil : ∀ n a b, R a b →
      Together R stops (untilStop stop f e n a) (untilStop stop g e n b) := by
    intro n
    induction n with
    | zero => exact fun _ _ _ => .fail e
    | succ n ih =>
      intro a b hab
      refine Together.bind_left stop fun done => ?_
      cases done with
      | true => exact .pure hab
      | false => exact (h a b hab).bind ih
  exact fun c => huntil _ a b hab c

end Together

/-! ## What follows -/

/-- The result on a word is the result on every longer one, unless the error says that symbols
are lacking. -/
def Local (lacks : ε → Prop) (m : Parse σ ε α) : Prop :=
  ∀ c rest, match m.run c with
    | .ok (a, c') => m.run ⟨c.offset, c.rest ++ rest⟩ = .ok (a, ⟨c'.offset, c'.rest ++ rest⟩)
    | .error e => lacks e ∨ ∃ e', m.run ⟨c.offset, c.rest ++ rest⟩ = .error e'

variable {lacks : ε → Prop}

theorem Local.pure (a : α) : Local lacks (pure a : Parse σ ε α) := fun _ _ => rfl

theorem Local.fail (e : Cursor σ → ε) : Local lacks (Parse.fail e : Parse σ ε α) :=
  fun _ _ => .inr ⟨_, rfl⟩

theorem local_next (h : ∀ c, lacks (e c)) : Local lacks (next e) := by
  rintro ⟨o, _ | ⟨a, w⟩⟩ rest
  · exact .inl (h _)
  · rfl

theorem local_take (h : ∀ c, lacks (e c)) (n : ℕ) : Local lacks (take e n) := by
  rintro ⟨o, w⟩ rest
  simp only [take, StateT.run]
  by_cases hn : n ≤ w.length
  · rw [dif_pos hn, dif_pos (by rw [List.length_append]; omega)]
    simp only [Cursor.advance, List.take_append_of_le_length hn, List.drop_append_of_le_length hn]
  · rw [dif_neg hn]
    exact .inl (h _)

theorem local_look (h : ∀ c, lacks (e c)) (n : ℕ) : Local lacks (look e n) := by
  rintro ⟨o, w⟩ rest
  simp only [look, StateT.run]
  by_cases hn : n ≤ w.length
  · rw [dif_pos hn, dif_pos (by rw [List.length_append]; omega)]
    simp only [List.take_append_of_le_length hn]
  · rw [dif_neg hn]
    exact .inl (h _)

theorem Local.bind (h : Local lacks m) (h' : ∀ a, Local lacks (f a)) : Local lacks (m >>= f) := by
  intro c rest
  have hm := h c rest
  rw [StateT.run_bind, StateT.run_bind]
  cases hc : m.run c with
  | error e =>
    rw [hc] at hm
    rcases hm with hm | ⟨e', hm⟩
    · exact .inl hm
    · exact .inr ⟨e', by rw [hm]; rfl⟩
  | ok r =>
    obtain ⟨a, c'⟩ := r
    rw [hc] at hm
    rw [hm]
    exact h' a c' rest

theorem Local.bind_pure {g : α → β} (h : Local lacks m) :
    Local lacks (m >>= fun a => Pure.pure (g a)) := h.bind fun _ => .pure _

theorem Local.replicate (h : Local lacks m) : ∀ n, Local lacks (Parse.replicate m n)
  | 0 => .pure _
  | n + 1 => h.bind fun _ => (h.replicate n).bind_pure

theorem Local.iterate {f : α → Parse σ ε α} (h : ∀ a, Local lacks (f a)) :
    ∀ n a, Local lacks (Parse.iterate f n a)
  | 0, a => .pure a
  | n + 1, a => (h a).bind fun _ => Local.iterate h n _

/-! ## Preconditions -/

/-- `P` says that a run from `c` ends well, some symbols further on and with the demand `k` met, or
stops with an error that is `ok` for an input of that size. -/
def Tells (ok : ℕ → ε → Prop) (P : Prop) (k : α → List σ → Prop) (c : Cursor σ) :
    Except ε (α × Cursor σ) → Prop
  | .ok (a, d) => c.Leads d ∧ (P ↔ k a d.rest)
  | .error e => P ↔ ok c.size e

variable {ok : ℕ → ε → Prop} {P : Prop} {k : α → List σ → Prop} {k' : β → List σ → Prop}
  {c d : Cursor σ}

/-- What is told further on is told from the start. -/
theorem Tells.from {r : Except ε (α × Cursor σ)} (h : Tells ok P k d r) (hcd : c.Leads d) :
    Tells ok P k c r := by
  cases r with
  | error e =>
    rw [Tells, hcd.size_eq] at h
    exact h
  | ok r => exact ⟨hcd.trans h.1, h.2⟩

theorem Tells.bind (h : Tells ok P k c (m.run c))
    (h' : ∀ a d, Tells ok (k a d.rest) k' d ((f a).run d)) :
    Tells ok P k' c ((m >>= f).run c) := by
  rw [StateT.run_bind]
  cases hc : m.run c with
  | error e =>
    rw [hc] at h
    exact h
  | ok r =>
    obtain ⟨a, d⟩ := r
    rw [hc] at h
    obtain ⟨hcd, hP⟩ := h
    have hf := h' a d
    rw [← hP] at hf
    exact hf.from hcd

theorem Tells.congr {P' : Prop} {r : Except ε (α × Cursor σ)} (h : Tells ok P k c r)
    (hP : P' ↔ P) : Tells ok P' k c r := by
  cases r with
  | error e => exact hP.trans h
  | ok r => exact ⟨h.1, hP.trans h.2⟩

/-- The symbols before `m` decide, by `g`, whether a demand on the result and on the symbols
behind it is met. -/
def Precondition (ok : ℕ → ε → Prop) (m : Parse σ ε α)
    (g : (α → List σ → Prop) → List σ → Prop) : Prop :=
  ∀ k c, Tells ok (g k c.rest) k c (m.run c)

/-- The same for demands that do not ask for the result. -/
def Passes (ok : ℕ → ε → Prop) (m : Parse σ ε α) (g : (List σ → Prop) → List σ → Prop) : Prop :=
  ∀ k c, Tells ok (g k c.rest) (fun _ => k) c (m.run c)

theorem Precondition.congr {g g' : (α → List σ → Prop) → List σ → Prop}
    (h : Precondition ok m g) (hg : ∀ k w, g' k w ↔ g k w) : Precondition ok m g' :=
  fun k c => (h k c).congr (hg k c.rest)

theorem Passes.congr {g g' : (List σ → Prop) → List σ → Prop} (h : Passes ok m g)
    (hg : ∀ k w, g' k w ↔ g k w) : Passes ok m g' :=
  fun k c => (h k c).congr (hg k c.rest)

/-- An error that is `ok`. -/
theorem Passes.fail_ok (h : ∀ c, ok c.size (e c)) :
    Passes ok (Parse.fail e : Parse σ ε α) fun _ _ => True :=
  fun _ c => ⟨fun _ => h c, fun _ => trivial⟩

theorem Precondition.fail (h : ∀ c, ¬ok c.size (e c)) :
    Precondition ok (Parse.fail e : Parse σ ε α) fun _ _ => False :=
  fun _ c => ⟨False.elim, h c⟩

theorem Precondition.pure (a : α) :
    Precondition ok (Pure.pure a : Parse σ ε α) fun k => k a := fun _ c => ⟨.refl c, Iff.rfl⟩

theorem Passes.pure (a : α) : Passes ok (Pure.pure a : Parse σ ε α) fun k => k :=
  fun _ c => ⟨.refl c, Iff.rfl⟩

/-- What is asked of the result may be ignored. -/
theorem Precondition.passes {g : (α → List σ → Prop) → List σ → Prop} (h : Precondition ok m g) :
    Passes ok m fun k => g fun _ => k := fun k => h fun _ => k

theorem Precondition.bind {g : (α → List σ → Prop) → List σ → Prop}
    {g' : α → (β → List σ → Prop) → List σ → Prop} (h : Precondition ok m g)
    (h' : ∀ a, Precondition ok (f a) (g' a)) :
    Precondition ok (m >>= f) fun k => g fun a => g' a k :=
  fun k c => (h _ c).bind fun a => h' a k

/-- What is done next depends on the result. -/
theorem Precondition.then {g : (α → List σ → Prop) → List σ → Prop}
    {g' : α → (List σ → Prop) → List σ → Prop} (h : Precondition ok m g)
    (h' : ∀ a, Passes ok (f a) (g' a)) : Passes ok (m >>= f) fun k => g fun a => g' a k :=
  fun k c => (h _ c).bind fun a => h' a k

/-- The result of `m` does not matter. -/
theorem Passes.then {g : (List σ → Prop) → List σ → Prop}
    {g' : (β → List σ → Prop) → List σ → Prop} (h : Passes ok m g)
    (h' : ∀ a, Precondition ok (f a) g') : Precondition ok (m >>= f) fun k => g (g' k) :=
  fun k c => (h _ c).bind fun a => h' a k

theorem Passes.bind {g g' : (List σ → Prop) → List σ → Prop} (h : Passes ok m g)
    (h' : ∀ a, Passes ok (f a) g') : Passes ok (m >>= f) fun k => g (g' k) :=
  fun k c => (h _ c).bind fun a => h' a k

theorem Passes.bind_pure {g : (List σ → Prop) → List σ → Prop} {b : α → β} (h : Passes ok m g) :
    Passes ok (m >>= fun a => Pure.pure (b a)) g := h.bind fun a => .pure (b a)

theorem Passes.replicate {g : (List σ → Prop) → List σ → Prop} (h : Passes ok m g) :
    ∀ n, Passes ok (Parse.replicate m n) fun k => g^[n] k
  | 0 => .pure _
  | n + 1 => by
    simp only [Function.iterate_succ_apply']
    exact h.bind fun _ => (h.replicate n).bind_pure

theorem Passes.iterate {f : α → Parse σ ε α} {g : (List σ → Prop) → List σ → Prop}
    (h : ∀ a, Passes ok (f a) g) : ∀ n a, Passes ok (Parse.iterate f n a) fun k => g^[n] k
  | 0, a => .pure a
  | n + 1, a => by
    simp only [Function.iterate_succ_apply']
    exact (h a).bind fun b => Passes.iterate h n b

/-! ## Preconditions on a part of the result -/

section Part

variable {γ δ : Type} {part : α → γ} {part' : β → δ}

/-- The symbols before `m` decide, by `g`, whether a demand on a part of the result and on the
symbols behind it is met. -/
def PreconditionOf (ok : ℕ → ε → Prop) (part : α → γ) (m : Parse σ ε α)
    (g : (γ → List σ → Prop) → List σ → Prop) : Prop :=
  ∀ k c, Tells ok (g k c.rest) (fun a => k (part a)) c (m.run c)

theorem PreconditionOf.congr {g g' : (γ → List σ → Prop) → List σ → Prop}
    (h : PreconditionOf ok part m g) (hg : ∀ k w, g' k w ↔ g k w) : PreconditionOf ok part m g' :=
  fun k c => (h k c).congr (hg k c.rest)

theorem PreconditionOf.pure {a : α} {s : γ} (ha : part a = s) :
    PreconditionOf ok part (Pure.pure a : Parse σ ε α) fun k => k s :=
  fun _ c => ⟨.refl c, by simp only [ha]⟩

theorem Precondition.thenOf {g : (α → List σ → Prop) → List σ → Prop}
    {g' : α → (δ → List σ → Prop) → List σ → Prop} (h : Precondition ok m g)
    (h' : ∀ a, PreconditionOf ok part' (f a) (g' a)) :
    PreconditionOf ok part' (m >>= f) fun k => g fun a => g' a k :=
  fun k c => (h _ c).bind fun a => h' a k

theorem Passes.thenOf {g : (List σ → Prop) → List σ → Prop}
    {g' : (δ → List σ → Prop) → List σ → Prop} (h : Passes ok m g)
    (h' : ∀ a, PreconditionOf ok part' (f a) g') :
    PreconditionOf ok part' (m >>= f) fun k => g (g' k) :=
  fun k c => (h _ c).bind fun a => h' a k

/-- The part is all that is known of the result, and all that is asked for. -/
theorem PreconditionOf.bind {g : (γ → List σ → Prop) → List σ → Prop}
    {t : γ → (δ → List σ → Prop) → List σ → Prop} (h : PreconditionOf ok part m g)
    (h' : ∀ a, PreconditionOf ok part' (f a) (t (part a))) :
    PreconditionOf ok part' (m >>= f) fun k => g fun s => t s k :=
  fun k c => (h _ c).bind fun a => h' a k

/-- `n` demands in turn, each with what the ones before it found. -/
def tellEach (g : γ → (γ → List σ → Prop) → List σ → Prop) :
    ℕ → γ → (γ → List σ → Prop) → List σ → Prop
  | 0, s, k => k s
  | n + 1, s, k => g s fun s => tellEach g n s k

theorem PreconditionOf.iterate {f : α → Parse σ ε α}
    {g : γ → (γ → List σ → Prop) → List σ → Prop}
    (h : ∀ a, PreconditionOf ok part (f a) (g (part a))) :
    ∀ n a, PreconditionOf ok part (Parse.iterate f n a) (tellEach g n (part a))
  | 0, _ => fun _ c => ⟨.refl c, Iff.rfl⟩
  | n + 1, a => (h a).bind fun b => PreconditionOf.iterate h n b

end Part

end Parse
