import Dots.Lib.Run
import Mathlib.Data.List.Forall2

/-!
# Computations that throw and keep their changes

* `Keep ε σ`: a computation on a state that may throw; what it has changed until then stays.
* `Gives m s a s'`: from `s`, `m` returns `a` and leaves `s'`; `Throws m s e s'`: it throws `e`.
* **`Gives.bind`**, **`Throws.bind`**, **`gives_forM`**: one after the other.
* `Ignores g m`: `m` neither reads nor writes what `g` puts into the state.
* `Succeeds P m s Q`: from `s`, `m` returns exactly if `P` holds; **`Succeeds.bind`**,
  **`succeeds_forM`**.
* `completed f s as`: the labels of a run whose computations return; **`exec_completed`**: what throws
  can be left out if it changes nothing.
-/

set_option autoImplicit false

/-- A computation on a state that may throw. The changes until then are kept. -/
abbrev Keep (ε σ : Type) := ExceptT ε (StateM σ)

namespace Keep

variable {ε σ α β : Type}

/-- The outcome and the state that is left. -/
def exec (m : Keep ε σ α) (s : σ) : Except ε α × σ := (ExceptT.run m).run s

def throws (e : ε) : Keep ε σ α := throw e

/-- A change of the state. -/
def change (f : σ → σ) : Keep ε σ Unit := modify f

/-- From `s`, `m` returns `a` and leaves `s'`. -/
def Gives (m : Keep ε σ α) (s : σ) (a : α) (s' : σ) : Prop := exec m s = (.ok a, s')

/-- From `s`, `m` throws `e` and leaves `s'`. -/
def Throws (m : Keep ε σ α) (s : σ) (e : ε) (s' : σ) : Prop := exec m s = (.error e, s')

variable {m : Keep ε σ α} {f : α → Keep ε σ β} {s s' s'' : σ} {a : α} {b : β} {e : ε}

theorem gives_pure (a : α) (s : σ) : Gives (pure a : Keep ε σ α) s a s := rfl

theorem gives_change (f : σ → σ) (s : σ) : Gives (change f : Keep ε σ Unit) s () (f s) := rfl

theorem throws_throws (e : ε) (s : σ) : Throws (throws e : Keep ε σ α) s e s := rfl

theorem exec_bind (h : Gives m s a s') : exec (m >>= f) s = exec (f a) s' := by
  have hrun : (ExceptT.run m).run s = (.ok a, s') := h
  show (ExceptT.run m >>= ExceptT.bindCont f).run s = _
  rw [StateT.run_bind, hrun]
  rfl

theorem Gives.bind (h : Gives m s a s') (h' : Gives (f a) s' b s'') : Gives (m >>= f) s b s'' :=
  (exec_bind h).trans h'

theorem Gives.then_throws (h : Gives m s a s') (h' : Throws (f a) s' e s'') :
    Throws (m >>= f) s e s'' := (exec_bind h).trans h'

theorem Throws.bind (h : Throws m s e s') : Throws (m >>= f) s e s' := by
  have hrun : (ExceptT.run m).run s = (.error e, s') := h
  show (ExceptT.run m >>= ExceptT.bindCont f).run s = _
  rw [StateT.run_bind, hrun]
  rfl

/-- What comes behind throws, with any exception. -/
theorem Gives.exists_throws (h : Gives m s a s') (h' : ∃ e s'', Throws (f a) s' e s'') :
    ∃ e s'', Throws (m >>= f) s e s'' := by
  obtain ⟨e, s'', hthrows⟩ := h'
  exact ⟨e, s'', h.then_throws hthrows⟩

/-- A computation on a part of the state. -/
def within {τ : Type} (view : σ → τ) (put : τ → σ → σ) (m : Keep ε τ α) : Keep ε σ α :=
  ExceptT.mk fun s =>
    let (r, t) := m.exec (view s)
    (r, put t s)

theorem Gives.within {τ : Type} {view : σ → τ} {put : τ → σ → σ} {m : Keep ε τ α} {t : τ}
    (h : Gives m (view s) a t) : Gives (Keep.within view put m) s a (put t s) := by
  have hexec : exec m (view s) = (.ok a, t) := h
  show (let (r, t) := m.exec (view s); ((r, put t s) : Except ε α × σ)) = _
  rw [hexec]

theorem Throws.within {τ : Type} {view : σ → τ} {put : τ → σ → σ} {m : Keep ε τ α} {t : τ}
    (h : Throws m (view s) e t) : Throws (Keep.within view put m) s e (put t s) := by
  have hexec : exec m (view s) = (.error e, t) := h
  show (let (r, t) := m.exec (view s); ((r, put t s) : Except ε α × σ)) = _
  rw [hexec]

/-- What returns does not throw. -/
theorem Gives.not_throws (h : Gives m s a s') : ¬Throws m s e s'' := by
  intro hthrows
  have hexec := h.symm.trans hthrows
  cases hexec

/-- A change for each element, in states with an invariant. -/
theorem gives_forM {I : σ → Prop} {f : α → Keep ε σ Unit} {g : β → σ → σ} {as : List α} {bs : List β}
    (h : List.Forall₂ (fun a b => ∀ s, I s → Gives (f a) s () (g b s) ∧ I (g b s)) as bs) :
    ∀ s, I s → Gives (as.forM f) s () (bs.foldl (fun s b => g b s) s) := by
  induction h with
  | nil => exact fun s _ => gives_pure () s
  | cons h _ ih =>
    intro s hs
    obtain ⟨hgives, hs'⟩ := h s hs
    exact hgives.bind (ih _ hs')

/-! ## Parts of the state that are not touched -/

/-- `m` neither reads nor writes what `g` puts into the state. -/
def Ignores (g : σ → σ) (m : Keep ε σ α) : Prop :=
  ∀ s, exec m (g s) = ((exec m s).1, g (exec m s).2)

section Ignores

variable {g : σ → σ}

theorem ignores_pure (a : α) : Ignores g (pure a : Keep ε σ α) := fun _ => rfl

theorem ignores_throws (e : ε) : Ignores g (throws e : Keep ε σ α) := fun _ => rfl

theorem ignores_change {f : σ → σ} (h : ∀ s, f (g s) = g (f s)) :
    Ignores g (change f : Keep ε σ Unit) := fun s => congrArg (Prod.mk _) (h s)

theorem Ignores.within {τ : Type} {view : σ → τ} {put : τ → σ → σ} {m : Keep ε τ α}
    (hview : ∀ s, view (g s) = view s) (hput : ∀ t s, put t (g s) = g (put t s)) :
    Ignores g (Keep.within view put m) := by
  intro s
  show ((m.exec (view (g s))).1, put (m.exec (view (g s))).2 (g s)) = _
  rw [hview, hput]
  rfl

theorem Ignores.bind (hm : Ignores g m) (hf : ∀ a, Ignores g (f a)) : Ignores g (m >>= f) := by
  intro s
  have hexec := hm s
  cases h : exec m s with
  | mk r s' =>
    rw [h] at hexec
    cases r with
    | ok a =>
      have hgives : Gives m s a s' := h
      rw [exec_bind hgives, exec_bind hexec]
      exact hf a s'
    | error e =>
      have hthrows : Throws m s e s' := h
      have hbind : exec (m >>= f) s = (.error e, s') := hthrows.bind
      have hthrows' : Throws m (g s) e (g s') := hexec
      rw [hbind]
      exact hthrows'.bind

/-- What is computed from the state before does not depend on it. -/
theorem ignores_get {f : σ → Keep ε σ β} (hf : ∀ s, f (g s) = f s) (h : ∀ s, Ignores g (f s)) :
    Ignores g (get >>= f) := by
  intro s
  have hget (s : σ) : Gives (get : Keep ε σ σ) s s s := rfl
  rw [exec_bind (hget s), exec_bind (hget (g s)), hf]
  exact h s s

end Ignores

/-! ## Success -/

/-- From `s`, `m` returns with `Q` if `P` holds, and throws otherwise. -/
def Succeeds (P : Prop) (m : Keep ε σ α) (s : σ) (Q : α → σ → Prop) : Prop :=
  (P ∧ ∃ a s', Gives m s a s' ∧ Q a s') ∨ (¬P ∧ ∃ e s', Throws m s e s')

variable {P P' : Prop} {Q : α → σ → Prop} {R : β → σ → Prop}

theorem Gives.succeeds (h : Gives m s a s') (hQ : Q a s') : Succeeds True m s Q :=
  .inl ⟨trivial, a, s', h, hQ⟩

theorem Succeeds.congr (h : Succeeds P m s Q) (hP : P' ↔ P) : Succeeds P' m s Q := by
  rwa [propext hP]

theorem Succeeds.mono {Q' : α → σ → Prop} (h : Succeeds P m s Q) (hQ : ∀ a s', Q a s' → Q' a s') :
    Succeeds P m s Q' := by
  obtain ⟨hP, a, s', hgives, ha⟩ | h := h
  · exact .inl ⟨hP, a, s', hgives, hQ a s' ha⟩
  · exact .inr h

theorem Succeeds.bind (h : Succeeds P m s Q) (h' : ∀ a s', Q a s' → Succeeds P' (f a) s' R) :
    Succeeds (P ∧ P') (m >>= f) s R := by
  obtain ⟨hP, a, s', hgives, ha⟩ | ⟨hP, e, s', hthrows⟩ := h
  · obtain ⟨hP', b, s'', hgives', hb⟩ | ⟨hP', e, s'', hthrows⟩ := h' a s' ha
    · exact .inl ⟨⟨hP, hP'⟩, b, s'', hgives.bind hgives', hb⟩
    · exact .inr ⟨fun h => hP' h.2, e, s'', hgives.then_throws hthrows⟩
  · exact .inr ⟨fun h => hP h.1, e, s', hthrows.bind⟩

/-- What always returns comes first. -/
theorem Succeeds.then (h : Succeeds True m s Q) (h' : ∀ a s', Q a s' → Succeeds P (f a) s' R) :
    Succeeds P (m >>= f) s R := (h.bind h').congr (by rw [true_and])

/-- What always returns comes last. -/
theorem Succeeds.finally (h : Succeeds P m s Q) (h' : ∀ a s', Q a s' → Succeeds True (f a) s' R) :
    Succeeds P (m >>= f) s R := (h.bind h').congr (by rw [and_true])

theorem succeeds_forM {I : σ → Prop} {p : α → Prop} {f : α → Keep ε σ Unit} {as : List α}
    (h : ∀ a ∈ as, ∀ s, I s → Succeeds (p a) (f a) s fun _ => I) :
    ∀ s, I s → Succeeds (∀ a ∈ as, p a) (as.forM f) s fun _ => I := by
  induction as with
  | nil => exact fun s hs => ((gives_pure () s).succeeds hs).congr (by simp)
  | cons a as ih =>
    intro s hs
    exact ((h a List.mem_cons_self s hs).bind fun _ s' hs' =>
      ih (fun a ha => h a (List.mem_cons_of_mem _ ha)) s' hs').congr List.forall_mem_cons

/-! ## Runs of computations -/

section Runs

variable {f : σ → α → Option (Except ε Unit × σ)} {ok : σ → α → Prop} {as : List α}

/-- A step is a computation that may throw; the run goes on from what it leaves. -/
def step (f : σ → α → Option (Except ε Unit × σ)) (s : σ) (a : α) : Option σ := (f s a).map Prod.snd

/-- The labels of the computations that return. -/
def completed (f : σ → α → Option (Except ε Unit × σ)) : σ → List α → List α
  | _, [] => []
  | s, a :: as =>
    match f s a with
    | none => []
    | some (.error _, s') => completed f s' as
    | some (.ok _, s') => a :: completed f s' as

/-- **Without a trace.** If the computations that throw change nothing, they can be left out. -/
theorem exec_completed {I : σ → Prop}
    (h : ∀ s a r s', I s → ok s a → f s a = some (r, s') → I s' ∧ ∀ e, r = .error e → s' = s)
    (r : Lts.Run (Lts.Guarded (Lts.ofPartial (step f)) ok) s as s') (hs : I s) :
    Lts.exec (step f) s (completed f s as) = some s' ∧ I s' := by
  induction r with
  | nil _ => exact ⟨rfl, hs⟩
  | @cons s t u a as hstep r ih =>
    obtain ⟨hstep, hok⟩ := hstep
    obtain ⟨⟨outcome, t'⟩, hf, rfl⟩ := Option.map_eq_some_iff.mp hstep
    obtain ⟨ht, hsame⟩ := h s a outcome t' hs hok hf
    simp only [completed, hf]
    cases outcome with
    | error e =>
      obtain rfl := hsame e rfl
      exact ih ht
    | ok _ =>
      rw [Lts.exec, step, hf]
      exact ih ht

end Runs

end Keep
