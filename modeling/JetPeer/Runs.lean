/-
JetPeer/Runs.lean

Machines with labelled, possibly disabled steps, and their runs.

A machine is a partial step function `step : σ → α → Option σ`; a run is a
list of actions together with the states at its ends.  Runs carry a guard
`C : σ → α → Prop` that every step has to satisfy at the state it leaves, so
one relation serves both readings:

    M.Run (fun _ _ => True) s as t      every run
    M.Run C s as t                      every run whose steps all meet `C`

The rules below are all an invariant proof needs: `Run.invariant` (holds at
the start, kept by every guarded step) and, for concrete runs, `Run.of_eval`
and `Run.of_evalIn` (a run is the evaluation of its actions).
-/
import Mathlib.Data.List.Basic

namespace Runs

variable {σ α : Type*}

/-- A labelled transition system given by a partial step function. -/
structure Machine (σ α : Type*) where
  step : σ → α → Option σ

namespace Machine

/-- `M.Run C s as t`: the actions `as` lead from `s` to `t`, and every one of
them meets the guard `C` at the state it is taken in. -/
inductive Run (M : Machine σ α) (C : σ → α → Prop) (s : σ) : List α → σ → Prop
  | nil : Run M C s [] s
  | snoc {as t a u} :
      Run M C s as t → C t a → M.step t a = some u → Run M C s (as ++ [a]) u

variable {M : Machine σ α} {C D : σ → α → Prop} {s t u : σ} {as bs : List α} {a : α}

/-- The guard of an unrestricted run. -/
def Always : σ → α → Prop := fun _ _ => True

theorem Run.single (hC : C s a) (h : M.step s a = some t) : M.Run C s [a] t :=
  show M.Run C s ([] ++ [a]) t from Run.snoc .nil hC h

theorem Run.append (h : M.Run C s as t) (h' : M.Run C t bs u) :
    M.Run C s (as ++ bs) u := by
  induction h' with
  | nil => simpa using h
  | snoc _ hC hstep ih =>
      rw [← List.append_assoc]
      exact ih.snoc hC hstep

theorem Run.mono (hCD : ∀ s a, C s a → D s a) (h : M.Run C s as t) :
    M.Run D s as t := by
  induction h with
  | nil => exact .nil
  | snoc _ hC hstep ih => exact ih.snoc (hCD _ _ hC) hstep

/-- **The invariant rule**: what holds at the start and is kept by every
guarded step holds after every guarded run. -/
theorem Run.invariant {I : σ → Prop} (h : M.Run C s as t) (h₀ : I s)
    (hstep : ∀ t a u, I t → C t a → M.step t a = some u → I u) : I t := by
  induction h with
  | nil => exact h₀
  | snoc _ hC hst ih => exact hstep _ _ _ ih hC hst

/-! ### Evaluation of a list of actions -/

/-- The state after a list of actions, if every one of them is enabled. -/
def eval (M : Machine σ α) : σ → List α → Option σ
  | s, [] => some s
  | s, a :: as => (M.step s a).bind fun t => M.eval t as

theorem Run.of_eval : ∀ {as : List α} {s t : σ},
    M.eval s as = some t → M.Run Always s as t
  | [], s, t, h => by
      obtain rfl : s = t := by simpa [eval] using h
      exact .nil
  | a :: as, s, t, h => by
      obtain ⟨u, hu, hrest⟩ := Option.bind_eq_some_iff.mp h
      exact (Run.single (a := a) trivial hu).append (Run.of_eval hrest)

/-- The same, if every action also meets the guard. -/
def evalIn (M : Machine σ α) (C : σ → α → Prop) [∀ s a, Decidable (C s a)] :
    σ → List α → Option σ
  | s, [] => some s
  | s, a :: as => if C s a then (M.step s a).bind fun t => M.evalIn C t as else none

theorem Run.of_evalIn [∀ s a, Decidable (C s a)] : ∀ {as : List α} {s t : σ},
    M.evalIn C s as = some t → M.Run C s as t
  | [], s, t, h => by
      obtain rfl : s = t := by simpa [evalIn] using h
      exact .nil
  | a :: as, s, t, h => by
      obtain ⟨hC, h⟩ := Option.ite_none_right_eq_some.mp h
      obtain ⟨u, hu, hrest⟩ := Option.bind_eq_some_iff.mp h
      exact (Run.single hC hu).append (Run.of_evalIn hrest)

/-! ### What a run shows -/

section Observed

variable {β : Type*} {obs : σ → α → List β}

end Observed

end Machine

end Runs
