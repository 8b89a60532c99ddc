import Mathlib.Data.List.Basic
import Mathlib.Logic.Function.Basic

/-!
# Runs of a labelled transition relation

* `Run step s as t`: the labels `as` lead from `s` to `t`.
* `Guarded step ok`: the steps whose label is allowed by `ok` in the state they start from.
* **`Run.invariant`**: what every step keeps, every run keeps.
* `exec`, **`run_of_exec`**: runs of a partial step function, computed.
* **`Run.simulates`**: a partial step function that follows every step follows every run.
-/

set_option autoImplicit false

namespace Lts

variable {σ α : Type*} {step : σ → α → σ → Prop}

/-- The labels `as` lead from one state to another, one step at a time. -/
inductive Run (step : σ → α → σ → Prop) : σ → List α → σ → Prop
  | nil (s : σ) : Run step s [] s
  | cons {s t u : σ} {a : α} {as : List α} (h : step s a t) (r : Run step t as u) :
      Run step s (a :: as) u

/-- The steps allowed by `ok` in the state they start from. -/
def Guarded (step : σ → α → σ → Prop) (ok : σ → α → Prop) (s : σ) (a : α) (t : σ) : Prop :=
  step s a t ∧ ok s a

/-- The steps of a partial step function. -/
def ofPartial (f : σ → α → Option σ) (s : σ) (a : α) (t : σ) : Prop := f s a = some t

/-- **Run lemma.** An invariant of every step is an invariant of every run. -/
theorem Run.invariant {I : σ → Prop} (hstep : ∀ s a t, I s → step s a t → I t) {s t : σ}
    {as : List α} (r : Run step s as t) (h : I s) : I t := by
  induction r with
  | nil _ => exact h
  | cons hs _ ih => exact ih (hstep _ _ _ h hs)

/-- What every step relates to its start, every run relates to its start. -/
theorem Run.relates {R : σ → σ → Prop} (hrefl : ∀ s, R s s)
    (htrans : ∀ s t u, R s t → R t u → R s u) (hstep : ∀ s a t, step s a t → R s t) {s t : σ}
    {as : List α} (r : Run step s as t) : R s t := by
  induction r with
  | nil s => exact hrefl s
  | cons hs _ ih => exact htrans _ _ _ (hstep _ _ _ hs) ih

theorem Run.mono {step' : σ → α → σ → Prop} (h : ∀ s a t, step s a t → step' s a t) {s t : σ}
    {as : List α} (r : Run step s as t) : Run step' s as t := by
  induction r with
  | nil s => exact .nil s
  | cons hs _ ih => exact .cons (h _ _ _ hs) ih

theorem Run.append {s t u : σ} {as bs : List α} (r : Run step s as t) (r' : Run step t bs u) :
    Run step s (as ++ bs) u := by
  induction r with
  | nil _ => exact r'
  | cons hs _ ih => exact .cons hs (ih r')

/-- Run a partial step function over a list of labels. -/
def exec (f : σ → α → Option σ) : σ → List α → Option σ
  | s, [] => some s
  | s, a :: as => (f s a).bind fun t => exec f t as

theorem exec_cons {f : σ → α → Option σ} {s t : σ} {a : α} {as : List α} (h : f s a = some t) :
    exec f s (a :: as) = exec f t as := by
  rw [exec, h]
  rfl

/-- **Computed runs are runs.** -/
theorem run_of_exec {f : σ → α → Option σ} {s t : σ} {as : List α}
    (h : exec f s as = some t) : Run (ofPartial f) s as t := by
  induction as generalizing s with
  | nil =>
    obtain rfl : s = t := Option.some.inj h
    exact .nil s
  | cons a as ih =>
    obtain ⟨u, hu, h'⟩ := Option.bind_eq_some_iff.mp h
    exact .cons hu (ih h')

/-- Computed runs whose steps are checked are runs of the allowed steps. -/
theorem run_of_exec_guarded {f : σ → α → Option σ} {ok : σ → α → Prop} {check : σ → α → Bool}
    (hok : ∀ s a, check s a = true → ok s a) {s t : σ} {as : List α}
    (h : exec (fun s a => if check s a then f s a else none) s as = some t) :
    Run (Guarded (ofPartial f) ok) s as t := by
  refine (run_of_exec h).mono fun s a t hs => ?_
  simp only [ofPartial, Option.ite_none_right_eq_some] at hs
  exact ⟨hs.2, hok s a hs.1⟩

/-- **Simulation.** A partial step function that follows every step follows every run. -/
theorem Run.simulates {τ : Type*} {f : τ → α → Option τ} {R : σ → τ → Prop} {s t : σ} {as : List α}
    (r : Run step s as t)
    (h : ∀ s a t s', a ∈ as → step s a t → R s s' → ∃ t', f s' a = some t' ∧ R t t') {s' : τ}
    (hs : R s s') : ∃ t', exec f s' as = some t' ∧ R t t' := by
  induction r generalizing s' with
  | nil _ => exact ⟨s', rfl, hs⟩
  | cons hstep _ ih =>
    obtain ⟨u', hu', hu⟩ := h _ _ _ _ List.mem_cons_self hstep hs
    obtain ⟨t', ht', ht⟩ := ih (fun s a t s' ha => h s a t s' (List.mem_cons_of_mem _ ha)) hu
    exact ⟨t', (exec_cons hu').trans ht', ht⟩

end Lts
