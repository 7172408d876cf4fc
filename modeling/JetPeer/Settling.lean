/-
JetPeer/Settling.lean

Machines that come to rest.

A measure that every guarded step lowers bounds the guarded runs, whatever
order the steps come in; and where runs are bounded, each state has one to a
state in which no guarded step is left (`Settled`).  So a theorem about what a
machine comes to has two halves: a measure, and what the settled states are.

For threads the measure is a sum, over the frames on all stacks, of the work a
frame still has to do, and of the work that lies in the shared state.  What one
turn has to lower is its own part of the sum only: the frames of the others
must not get more to do.
-/
import JetPeer.Threads
import Mathlib.Algebra.BigOperators.Group.List.Basic
import Mathlib.Algebra.GroupWithZero.Nat
import Mathlib.Algebra.Order.Group.Nat
import Mathlib.Order.Basic

namespace Runs

namespace Machine

variable {σ α : Type*} {M : Machine σ α} {C : σ → α → Prop} {w : σ → ℕ} {s t : σ} {as : List α}

end Machine

/-! ### Threads -/

variable {σ φ α : Type*} {turn : σ → List φ → α → Option (σ × List φ)}

/-- What frames have to do, in a shared state. -/
def workOf (g : σ → φ → ℕ) (shared : σ) (fs : List φ) : ℕ := (fs.map (g shared)).sum

/-- What is in the shared state and what all frames have to do. -/
def Threads.work (u : σ → ℕ) (g : σ → φ → ℕ) (s : Threads σ φ) : ℕ :=
  u s.shared + workOf g s.shared (s.callStacks.flatMap id)

section

variable {g : σ → φ → ℕ} {shared shared' : σ} {fs fs' : List φ}

@[simp] theorem workOf_nil : workOf g shared [] = 0 := rfl

@[simp] theorem workOf_append :
    workOf g shared (fs ++ fs') = workOf g shared fs + workOf g shared fs' := by
  simp [workOf]

end

end Runs
