import Dots.Lib.Parse
import Mathlib.Logic.Relation

/-!
# Parsers that go on

* `Moves E k c r`, `Advances E k m`: a run passes at least `k` of the symbols that are left, and none
  behind them, or stops with an error in `E`.
* `Comes stop body k a c b d`: `k` rounds of a loop lead from `(a, c)` to `(b, d)`.
* **`error_untilStop_iff`**, **`error_loop_iff_of_stop`**: how a loop stops with an error.
* **`Advances.loop`**, **`Comes.le_length`**: a loop whose rounds pass a symbol has an end.
* **`AgreeUpTo.behind`**, **`AgreeUpTo.loop`**: parsers that do the same up to a number of symbols.
* **`fails_iff_of_calls`**: what fails calls, over any number of calls, what fails by itself.
-/

set_option autoImplicit false

namespace Parse

variable {σ ε α β : Type} {E E' : ε → Prop} {i j k n : ℕ} {c d : Cursor σ} {m : Parse σ ε α}
  {f : α → Parse σ ε β} {e : ε}

/-! ## Errors of a sequence -/

theorem ok_bind_iff {b : β} : (m >>= f).run c = .ok (b, d) ↔
    ∃ a c', m.run c = .ok (a, c') ∧ (f a).run c' = .ok (b, d) := by
  rw [StateT.run_bind]
  cases m.run c with
  | error e => exact iff_of_false nofun (by rintro ⟨a, c', h, -⟩; cases h)
  | ok r =>
    refine ⟨fun h => ⟨r.1, r.2, rfl, h⟩, ?_⟩
    rintro ⟨a, c', h, hf⟩
    cases h
    exact hf

theorem error_bind_iff : (m >>= f).run c = .error e ↔
    m.run c = .error e ∨ ∃ a c', m.run c = .ok (a, c') ∧ (f a).run c' = .error e := by
  rw [StateT.run_bind]
  cases m.run c with
  | error e' =>
    refine ⟨fun h => .inl (congrArg Except.error (Except.error.inj h)), ?_⟩
    rintro (h | ⟨a, c', h, -⟩)
    · exact congrArg Except.error (Except.error.inj h)
    · cases h
  | ok r =>
    refine ⟨fun h => .inr ⟨r.1, r.2, rfl, h⟩, ?_⟩
    rintro (h | ⟨a, c', h, hf⟩)
    · cases h
    · cases h
      exact hf

/-! ## Passing symbols -/

/-- The result of a run from `c`: at least `k` of the symbols that are left were passed, or it is an
error in `E`. -/
def Moves (E : ε → Prop) (k : ℕ) (c : Cursor σ) : Except ε (α × Cursor σ) → Prop
  | .ok (_, c') => ∃ n, k ≤ n ∧ n ≤ c.rest.length ∧ c' = c.advance n
  | .error e => E e

/-- Each run passes at least `k` of the symbols that are left, or stops with an error in `E`. -/
def Advances (E : ε → Prop) (k : ℕ) (m : Parse σ ε α) : Prop := ∀ c, Moves E k c (m.run c)

theorem Moves.mono {r : Except ε (α × Cursor σ)} (h : Moves E i c r) (hE : ∀ e, E e → E' e)
    (hk : j ≤ i) : Moves E' j c r := by
  cases r with
  | error e => exact hE e h
  | ok r =>
    obtain ⟨n, hn, hle, hc⟩ := h
    exact ⟨n, hk.trans hn, hle, hc⟩

/-- **One after the other.** -/
theorem Moves.bind (h : Moves E i c (m.run c))
    (h' : ∀ a c', m.run c = .ok (a, c') → Moves E j c' ((f a).run c')) :
    Moves E (i + j) c ((m >>= f).run c) := by
  rw [StateT.run_bind]
  cases hm : m.run c with
  | error e =>
    rw [hm] at h
    exact h
  | ok r =>
    obtain ⟨a, c'⟩ := r
    rw [hm] at h
    obtain ⟨n, hn, hle, rfl⟩ := h
    have hf := h' a _ hm
    show Moves E (i + j) c ((f a).run (c.advance n))
    cases hr : (f a).run (c.advance n) with
    | error e =>
      rw [hr] at hf
      exact hf
    | ok r =>
      rw [hr] at hf
      obtain ⟨l, hl, hll, hc⟩ := hf
      rw [Cursor.rest_advance, List.length_drop] at hll
      exact ⟨n + l, by omega, by omega, by rw [hc, Cursor.advance_advance]⟩

theorem Advances.mono (h : Advances E i m) (hE : ∀ e, E e → E' e) (hk : j ≤ i) : Advances E' j m :=
  fun c => (h c).mono hE hk

theorem Advances.of_le (h : Advances E i m) (hk : j ≤ i) : Advances E j m := h.mono (fun _ => id) hk

theorem Advances.bind (h : Advances E i m) (h' : ∀ a, Advances E j (f a)) :
    Advances E (i + j) (m >>= f) := fun c => (h c).bind fun a c' _ => h' a c'

/-- The symbols are passed first. -/
theorem Advances.bind_left (h : Advances E k m) (h' : ∀ a, Advances E 0 (f a)) :
    Advances E k (m >>= f) := h.bind h'

/-- The symbols are passed last. -/
theorem Advances.bind_right (h : Advances E 0 m) (h' : ∀ a, Advances E k (f a)) :
    Advances E k (m >>= f) := (h.bind h').of_le (by omega)

theorem Advances.pure (a : α) : Advances E 0 (pure a : Parse σ ε α) :=
  fun _ => ⟨0, le_rfl, Nat.zero_le _, Cursor.advance_zero.symm⟩

theorem Advances.fail {e : Cursor σ → ε} (he : ∀ c, E (e c)) :
    Advances E k (Parse.fail e : Parse σ ε α) := he

theorem Advances.dite {p : Prop} [Decidable p] {yes : p → Parse σ ε α} {no : ¬p → Parse σ ε α}
    (hyes : ∀ h, Advances E k (yes h)) (hno : ∀ h, Advances E k (no h)) :
    Advances E k (if h : p then yes h else no h) := by
  split_ifs with h
  · exact hyes h
  · exact hno h

theorem Advances.ok (h : Advances E k m) {a : α} (hr : m.run c = .ok (a, d)) :
    ∃ n, k ≤ n ∧ n ≤ c.rest.length ∧ d = c.advance n := by
  have hc := h c
  rw [hr] at hc
  exact hc

theorem Advances.error (h : Advances E k m) (hr : m.run c = .error e) : E e := by
  have hc := h c
  rw [hr] at hc
  exact hc

/-- So many symbols less are left. -/
theorem Advances.length_le (h : Advances E k m) {a : α} (hr : m.run c = .ok (a, d)) :
    d.rest.length + k ≤ c.rest.length := by
  obtain ⟨n, hn, hle, rfl⟩ := h.ok hr
  rw [Cursor.rest_advance, List.length_drop]
  omega

/-- **Where no symbol less is left**, the input did not move. -/
theorem Advances.eq_of_length_le (h : Advances E k m) {a : α} (hr : m.run c = .ok (a, d))
    (hlength : c.rest.length ≤ d.rest.length) : d = c := by
  obtain ⟨n, -, hle, rfl⟩ := h.ok hr
  rw [Cursor.rest_advance, List.length_drop] at hlength
  obtain rfl : n = 0 := by omega
  exact Cursor.advance_zero

theorem Advances.of_length (h : Advances E i m) (hlength : ∀ c a c', m.run c = .ok (a, c') →
    c'.rest.length + k ≤ c.rest.length) : Advances E k m := by
  intro c
  have hc := h c
  cases hr : m.run c with
  | error e =>
    rw [hr] at hc
    exact hc
  | ok r =>
    obtain ⟨a, c'⟩ := r
    rw [hr] at hc
    obtain ⟨n, -, hn, rfl⟩ := hc
    have hle := hlength c a _ hr
    rw [Cursor.rest_advance, List.length_drop] at hle
    exact ⟨n, by omega, hn, rfl⟩

theorem Advances.forward (h : Advances E k m) : Forward m :=
  fun c _ _ hr => (Nat.le_add_right _ k).trans (h.length_le (c := c) hr)

/-! ## Rounds -/

variable {stop : Parse σ ε Bool} {body : α → Parse σ ε α} {h : Cursor σ → ε} {a b : α}

/-- `k` rounds of a loop lead from one value and place to others. -/
inductive Comes (stop : Parse σ ε Bool) (body : α → Parse σ ε α) :
    ℕ → α → Cursor σ → α → Cursor σ → Prop
  | here (a : α) (c : Cursor σ) : Comes stop body 0 a c a c
  | round {k : ℕ} {a a' b : α} {c c₁ c₂ d : Cursor σ} (hstop : stop.run c = .ok (false, c₁))
      (hbody : (body a).run c₁ = .ok (a', c₂)) (h : Comes stop body k a' c₂ b d) :
      Comes stop body (k + 1) a c b d

/-- What is done in a round ends with an error. -/
def RoundFails (stop : Parse σ ε Bool) (body : α → Parse σ ε α) (a : α) (c : Cursor σ) (e : ε) :
    Prop :=
  stop.run c = .error e ∨ ∃ c₁, stop.run c = .ok (false, c₁) ∧ (body a).run c₁ = .error e

/-- **A loop stops with an error** in one of its rounds, or because there are too many of them. -/
theorem error_untilStop_iff : (untilStop stop body h n a).run c = .error e ↔
    (∃ k < n, ∃ b d, Comes stop body k a c b d ∧ RoundFails stop body b d e) ∨
      ∃ b d, Comes stop body n a c b d ∧ h d = e := by
  induction n generalizing a c with
  | zero =>
    refine ⟨fun hrun => .inr ⟨a, c, .here a c, Except.error.inj hrun⟩, ?_⟩
    rintro (⟨k, hk, -⟩ | ⟨b, d, hcomes, rfl⟩)
    · cases hk
    · cases hcomes
      rfl
  | succ n ih =>
    rw [untilStop, error_bind_iff]
    constructor
    · rintro (hstop | ⟨stops, c₁, hstop, hrun⟩)
      · exact .inl ⟨0, Nat.succ_pos n, a, c, .here a c, .inl hstop⟩
      · cases stops with
        | true => cases hrun
        | false =>
          rcases error_bind_iff.mp hrun with hbody | ⟨a', c₂, hbody, hrun⟩
          · exact .inl ⟨0, Nat.succ_pos n, a, c, .here a c, .inr ⟨c₁, hstop, hbody⟩⟩
          · rcases ih.mp hrun with ⟨k, hk, b, d, hcomes, hfails⟩ | ⟨b, d, hcomes, he⟩
            · exact .inl ⟨k + 1, Nat.succ_lt_succ hk, b, d, .round hstop hbody hcomes, hfails⟩
            · exact .inr ⟨b, d, .round hstop hbody hcomes, he⟩
    · have hnext : ∀ {a' c₁ c₂}, stop.run c = .ok (false, c₁) → (body a).run c₁ = .ok (a', c₂) →
          (untilStop stop body h n a').run c₂ = .error e →
          stop.run c = .error e ∨ ∃ stops c', stop.run c = .ok (stops, c') ∧
            (if stops = true then pure a else body a >>= untilStop stop body h n :
              Parse σ ε α).run c' = .error e :=
        fun hstop hbody hrun =>
          .inr ⟨false, _, hstop, error_bind_iff.mpr (.inr ⟨_, _, hbody, hrun⟩)⟩
      rintro (⟨k, hk, b, d, hcomes, hfails⟩ | ⟨b, d, hcomes, he⟩)
      · cases hcomes with
        | here =>
          rcases hfails with hstop | ⟨c₁, hstop, hbody⟩
          · exact .inl hstop
          · exact .inr ⟨false, c₁, hstop, error_bind_iff.mpr (.inl hbody)⟩
        | round hstop hbody hcomes =>
          exact hnext hstop hbody
            (ih.mpr (.inl ⟨_, Nat.lt_of_succ_lt_succ hk, b, d, hcomes, hfails⟩))
      · cases hcomes with
        | round hstop hbody hcomes => exact hnext hstop hbody (ih.mpr (.inr ⟨b, d, hcomes, he⟩))

/-- **A loop that ends** stops after some rounds. -/
theorem ok_untilStop (hrun : (untilStop stop body h n a).run c = .ok (b, d)) :
    ∃ k < n, ∃ c₁, Comes stop body k a c b c₁ ∧ stop.run c₁ = .ok (true, d) := by
  induction n generalizing a c with
  | zero => cases hrun
  | succ n ih =>
    rw [untilStop, ok_bind_iff] at hrun
    obtain ⟨stops, c₁, hstop, hrun⟩ := hrun
    cases stops with
    | true =>
      cases hrun
      exact ⟨0, Nat.succ_pos n, c, .here _ c, hstop⟩
    | false =>
      obtain ⟨a', c₂, hbody, hrun⟩ := ok_bind_iff.mp hrun
      obtain ⟨k, hk, c₃, hcomes, hend⟩ := ih hrun
      exact ⟨k + 1, Nat.succ_lt_succ hk, c₃, .round hstop hbody hcomes, hend⟩

theorem run_loop_of_stop (hstop : stop.run c = .ok (true, d)) :
    (loop stop body h a).run c = .ok (a, d) := by
  show (untilStop stop body h (c.rest.length + 1) a).run c = _
  rw [untilStop, ok_bind_iff]
  exact ⟨true, d, hstop, rfl⟩

/-- A round passes at least `k` symbols. -/
def RoundMoves (E : ε → Prop) (k : ℕ) (stop : Parse σ ε Bool) (body : α → Parse σ ε α) : Prop :=
  ∀ a c c₁, stop.run c = .ok (false, c₁) → Moves E k c₁ ((body a).run c₁)

theorem Comes.moves {a b : α} (hcomes : Comes stop body n a c b d) (hstop : Advances E 0 stop)
    (hround : RoundMoves E k stop body) :
    ∃ l, n * k ≤ l ∧ l ≤ c.rest.length ∧ d = c.advance l := by
  induction hcomes with
  | here a c => exact ⟨0, by simp, Nat.zero_le _, Cursor.advance_zero.symm⟩
  | @round n a a' b c c₁ c₂ d hend hbody hcomes ih =>
    obtain ⟨i, -, hi, rfl⟩ := hstop.ok hend
    have hmoves := hround a c _ hend
    rw [hbody] at hmoves
    obtain ⟨j, hk, hj, rfl⟩ := hmoves
    obtain ⟨l, hl, hle, rfl⟩ := ih
    rw [Cursor.advance_advance, Cursor.rest_advance, List.length_drop] at hle
    rw [Cursor.rest_advance, List.length_drop] at hj
    refine ⟨i + j + l, ?_, by omega, by simp only [Cursor.advance_advance, Nat.add_assoc]⟩
    rw [Nat.succ_mul]
    omega

/-- **If each round passes a symbol**, there are not more rounds than symbols. -/
theorem Comes.le_length (hcomes : Comes stop body n a c b d) (hstop : Advances E 0 stop)
    (hround : RoundMoves E 1 stop body) : n ≤ c.rest.length := by
  obtain ⟨l, hl, hle, -⟩ := hcomes.moves hstop hround
  omega

/-- How a loop whose rounds pass a symbol stops with an error. -/
theorem error_loop_iff (hstop : Advances E 0 stop) (hround : RoundMoves E 1 stop body) :
    (loop stop body h a).run c = .error e ↔
      ∃ k ≤ c.rest.length, ∃ b d, Comes stop body k a c b d ∧ RoundFails stop body b d e := by
  refine error_untilStop_iff.trans ⟨?_, ?_⟩
  · rintro (⟨k, hk, hfails⟩ | ⟨b, d, hcomes, -⟩)
    · exact ⟨k, Nat.le_of_lt_succ hk, hfails⟩
    · exact absurd (hcomes.le_length hstop hround) (by omega)
  · rintro ⟨k, hk, hfails⟩
    exact .inl ⟨k, Nat.lt_succ_of_le hk, hfails⟩

theorem RoundFails.satisfies (hfails : RoundFails stop body a c e) (hstop : Advances E 0 stop)
    (hround : RoundMoves E k stop body) : E e := by
  rcases hfails with hfails | ⟨c₁, hend, hfails⟩
  · exact hstop.error hfails
  · have hmoves := hround a c c₁ hend
    rw [hfails] at hmoves
    exact hmoves

theorem Advances.untilStop (hstop : Advances E 0 stop) (hround : RoundMoves E 0 stop body)
    (hrun : ∀ e, (untilStop stop body h n a).run c = .error e → E e) :
    Moves E 0 c ((Parse.untilStop stop body h n a).run c) := by
  cases hr : (Parse.untilStop stop body h n a).run c with
  | error e => exact hrun e hr
  | ok r =>
    obtain ⟨k, -, c₁, hcomes, hend⟩ := ok_untilStop hr
    obtain ⟨l, -, hl, rfl⟩ := hcomes.moves hstop hround
    obtain ⟨i, -, hi, hd⟩ := hstop.ok hend
    rw [Cursor.rest_advance, List.length_drop] at hi
    exact ⟨l + i, Nat.zero_le _, by omega, by rw [hd, Cursor.advance_advance]⟩

/-- **A loop whose rounds pass a symbol** has no errors of its own. -/
theorem Advances.loop (hstop : Advances E 0 stop) (hround : RoundMoves E 1 stop body) :
    Advances E 0 (loop stop body h a) := by
  refine fun c => Advances.untilStop hstop (fun a c c₁ hend => (hround a c c₁ hend).mono
    (fun _ => id) (Nat.zero_le 1)) fun e hr => ?_
  obtain ⟨k, -, b, d, -, hfails⟩ := (error_loop_iff hstop hround).mp hr
  exact hfails.satisfies hstop hround

/-- A loop that may go on without end. -/
theorem Advances.loop_of_error (hstop : Advances E 0 stop) (hround : RoundMoves E 0 stop body)
    (hE : ∀ c, E (h c)) : Advances E 0 (Parse.loop stop body h a) := by
  refine fun c => Advances.untilStop hstop hround fun e hr => ?_
  rcases error_untilStop_iff.mp hr with ⟨k, -, b, d, -, hfails⟩ | ⟨b, d, -, rfl⟩
  · exact hfails.satisfies hstop hround
  · exact hE d

/-- One round more. -/
theorem Comes.snoc {d₁ d₂ : Cursor σ} {b' : α} (hcomes : Comes stop body k a c b d)
    (hstop : stop.run d = .ok (false, d₁)) (hbody : (body b).run d₁ = .ok (b', d₂)) :
    Comes stop body (k + 1) a c b' d₂ := by
  induction hcomes with
  | here a c => exact .round hstop hbody (.here _ _)
  | round hend hstep _ ih => exact .round hend hstep (ih hstop hbody)

/-- All rounds but the last one of a run end well. -/
theorem Comes.ok_of_lt {d₁ : Cursor σ} {b' : α} {d₂ : Cursor σ} (h : Comes stop body k a c b d)
    (hstop : stop.run d = .ok (false, d₁)) (hcomes : Comes stop body n a c b' d₂) (hk : k < n) :
    ∃ r, (body b).run d₁ = .ok r := by
  induction h generalizing n with
  | here a c =>
    cases hcomes with
    | here => cases hk
    | round hend hbody _ =>
      cases hstop.symm.trans hend
      exact ⟨_, hbody⟩
  | @round k a a' b c c₁ c₂ d hend hstep _ ih =>
    cases hcomes with
    | here => cases hk
    | round hend' hstep' hcomes' =>
      cases hend.symm.trans hend'
      cases hstep.symm.trans hstep'
      exact ih hstop hcomes' (Nat.lt_of_succ_lt_succ hk)

/-- A round begins with `b` at `d`, not later than a loop that passes symbols would allow. -/
def AtRound (stop : Parse σ ε Bool) (body : α → Parse σ ε α) (a : α) (c : Cursor σ) (b : α)
    (d : Cursor σ) : Prop :=
  ∃ k ≤ c.rest.length, ∃ d', Comes stop body k a c b d' ∧ stop.run d' = .ok (false, d)

theorem AtRound.length_le (hround : AtRound stop body a c b d) (hstop : Advances E 0 stop)
    (hmoves : RoundMoves E 0 stop body) : d.rest.length ≤ c.rest.length := by
  obtain ⟨k, -, d', hcomes, hend⟩ := hround
  obtain ⟨l, -, hl, rfl⟩ := hcomes.moves hstop hmoves
  have hle := hstop.length_le hend
  rw [Cursor.rest_advance, List.length_drop] at hle
  omega

/-- **A loop fails** in one of its rounds, or it makes more rounds than there are symbols. -/
theorem error_loop_iff_of_stop {e₀ : ε} (hstop : ∀ c, stop.run c ≠ .error e) :
    (loop stop body (fun _ => e₀) a).run c = .error e ↔
      (∃ b d, AtRound stop body a c b d ∧ (body b).run d = .error e) ∨
        e₀ = e ∧ ∃ b d, Comes stop body (c.rest.length + 1) a c b d := by
  refine error_untilStop_iff.trans ⟨?_, ?_⟩
  · rintro (⟨k, hk, b, d, hcomes, hfails | ⟨c₁, hend, hfails⟩⟩ | ⟨b, d, hcomes, rfl⟩)
    · exact absurd hfails (hstop d)
    · exact .inl ⟨b, c₁, ⟨k, Nat.le_of_lt_succ hk, d, hcomes, hend⟩, hfails⟩
    · exact .inr ⟨rfl, b, d, hcomes⟩
  · rintro (⟨b, d, ⟨k, hk, d', hcomes, hend⟩, hfails⟩ | ⟨rfl, b, d, hcomes⟩)
    · exact .inl ⟨k, Nat.lt_succ_of_le hk, b, d', hcomes, .inr ⟨d, hend, hfails⟩⟩
    · exact .inr ⟨b, d, hcomes, rfl⟩

/-- **More rounds than symbols**: one of them passes nothing. -/
theorem Comes.exists_stay (hcomes : Comes stop body n a c b d) (hstop : Advances E 0 stop)
    (hround : RoundMoves E 0 stop body) (hn : c.rest.length < n) :
    ∃ b d b' d', AtRound stop body a c b d ∧ (body b).run d = .ok (b', d') ∧
      d.rest.length ≤ d'.rest.length := by
  induction hcomes with
  | here a c => cases hn
  | @round n a a' b c c₁ c₂ d hend hbody hcomes ih =>
    have hle := hstop.length_le hend
    by_cases hstay : c₁.rest.length ≤ c₂.rest.length
    · exact ⟨a, c₁, a', c₂, ⟨0, Nat.zero_le _, c, .here a c, hend⟩, hbody, hstay⟩
    · obtain ⟨b, d, b', d', ⟨k, hk, d₁, hcomes, hend'⟩, hstep, hlength⟩ := ih (by omega)
      exact ⟨b, d, b', d', ⟨k + 1, by omega, d₁, .round hend hbody hcomes, hend'⟩, hstep, hlength⟩

/-- **Rounds that pass nothing** are made again and again. -/
theorem AtRound.comes_of_stays (hround : AtRound stop body a c b d)
    (hend : stop.run d = .ok (false, d))
    (hbody : ∀ b, AtRound stop body a c b d → ∃ b', (body b).run d = .ok (b', d)) :
    ∃ b' d', Comes stop body (c.rest.length + 1) a c b' d' := by
  obtain ⟨k, hk, d', hcomes, hstop⟩ := hround
  have hstays : ∀ j, k + j ≤ c.rest.length →
      ∃ b d', Comes stop body (k + j) a c b d' ∧ stop.run d' = .ok (false, d) := by
    intro j
    induction j with
    | zero => exact fun _ => ⟨b, d', hcomes, hstop⟩
    | succ j ih =>
      intro hj
      obtain ⟨b₁, d₁, hcomes₁, hstop₁⟩ := ih (by omega)
      obtain ⟨b₂, hbody₂⟩ := hbody b₁ ⟨k + j, by omega, d₁, hcomes₁, hstop₁⟩
      exact ⟨b₂, d, hcomes₁.snoc hstop₁ hbody₂, hend⟩
  obtain ⟨b₁, d₁, hcomes₁, hstop₁⟩ := hstays (c.rest.length - k) (by omega)
  rw [Nat.add_sub_of_le hk] at hcomes₁
  obtain ⟨b₂, hbody₂⟩ := hbody b₁ ⟨_, le_rfl, d₁, hcomes₁, hstop₁⟩
  exact ⟨b₂, d, hcomes₁.snoc hstop₁ hbody₂⟩

/-! ## Parsers that agree -/

variable {m' : Parse σ ε α} {f' : α → Parse σ ε β} {stop' : Parse σ ε Bool}
  {body' : α → Parse σ ε α}

/-- Behind at least one symbol, fewer symbols are left. -/
theorem AgreeUpTo.behind (hm : Advances E 1 m) (hf : ∀ k < n, ∀ a, AgreeUpTo k (f a) (f' a)) :
    AgreeUpTo n (m >>= f) (m >>= f') := by
  intro c hc
  rw [StateT.run_bind, StateT.run_bind]
  cases hr : m.run c with
  | error e => rfl
  | ok r =>
    have hle := hm.length_le hr
    exact hf r.2.rest.length (by omega) r.1 r.2 le_rfl

theorem AgreeUpTo.loop (hstop : AgreeUpTo n stop stop') (hforward : Forward stop)
    (hbody : ∀ a, AgreeUpTo n (body a) (body' a)) (hmoves : ∀ a, Forward (body a)) (a : α) :
    AgreeUpTo n (loop stop body h a) (Parse.loop stop' body' h a) := by
  have huntil : ∀ k a, AgreeUpTo n (untilStop stop body h k a) (untilStop stop' body' h k a) := by
    intro k
    induction k with
    | zero => exact fun a => .refl _
    | succ k ih =>
      intro a
      refine hstop.bind hforward fun stops => ?_
      cases stops with
      | true => exact .refl _
      | false => exact (hbody a).bind (hmoves a) ih
  exact fun c hc => huntil _ a c hc

end Parse

/-! ## Calls -/

/-- **What fails** calls, over any number of calls, what fails by itself. -/
theorem fails_iff_of_calls {ι : Type} {calls before : ι → ι → Prop} {inv fails raises : ι → Prop}
    (hwf : WellFounded before) (hbefore : ∀ x y, inv x → calls x y → before y x)
    (hinv : ∀ x y, inv x → calls x y → inv y) (hraises : ∀ x, raises x → fails x)
    (hup : ∀ x y, inv x → calls x y → fails y → fails x)
    (hdown : ∀ x, inv x → fails x → raises x ∨ ∃ y, calls x y ∧ fails y) {x : ι} (hx : inv x) :
    fails x ↔ ∃ y, Relation.ReflTransGen calls x y ∧ raises y := by
  constructor
  · intro hfails
    induction x using hwf.induction with
    | _ x ih =>
      rcases hdown x hx hfails with hraise | ⟨y, hcalls, hy⟩
      · exact ⟨x, .refl, hraise⟩
      · obtain ⟨z, hreach, hraise⟩ := ih y (hbefore x y hx hcalls) (hinv x y hx hcalls) hy
        exact ⟨z, .head hcalls hreach, hraise⟩
  · rintro ⟨y, hreach, hraise⟩
    induction hreach using Relation.ReflTransGen.head_induction_on with
    | refl => exact hraises y hraise
    | head hcalls _ ih =>
      exact hup _ _ hx hcalls (ih (hinv _ _ hx hcalls))
