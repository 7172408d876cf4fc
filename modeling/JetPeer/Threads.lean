/-
JetPeer/Threads.lean

Threads with call stacks over a shared state.

A thread is a stack of frames, the top first.  A `turn` changes the shared
state and the stack of one thread; the other threads only see the shared
state change.  The system is a `Machine` whose actions name the thread.

Invariants of such a system come in two parts: `I` speaks of the shared
state, `J` of the shared state and one frame, wherever it lies.  The rule
`Run.shared_invariant` asks of each turn what it asks of a sequential program,
and of the frames of the others that they stand the change (`Stable`).
-/
import JetPeer.Runs

namespace Runs

/-- A shared state and the stacks of the threads. -/
structure Threads (σ φ : Type*) where
  shared : σ
  callStacks : List (List φ)

variable {σ φ α : Type*}

namespace Threads

/-- No thread has begun. -/
def idle (shared : σ) (n : ℕ) : Threads σ φ := ⟨shared, List.replicate n []⟩

/-- `J` holds of every frame of every thread. -/
def AllFrames (J : σ → φ → Prop) (s : Threads σ φ) : Prop :=
  ∀ stack ∈ s.callStacks, ∀ f ∈ stack, J s.shared f

/-- Some thread has a frame with `P` on its stack. -/
def Pending (P : φ → Prop) (s : Threads σ φ) : Prop := ∃ stack ∈ s.callStacks, ∃ f ∈ stack, P f

instance (P : φ → Prop) [DecidablePred P] (s : Threads σ φ) : Decidable (s.Pending P) :=
  inferInstanceAs (Decidable (∃ stack ∈ s.callStacks, ∃ f ∈ stack, P f))

theorem allFrames_idle (J : σ → φ → Prop) (shared : σ) (n : ℕ) :
    (idle shared n).AllFrames J := by
  intro stack hstack f hf
  rw [List.eq_of_mem_replicate hstack] at hf
  exact absurd hf List.not_mem_nil

end Threads

/-- The system of threads that take turns. -/
def threadMachine (turn : σ → List φ → α → Option (σ × List φ)) :
    Machine (Threads σ φ) (ℕ × α) where
  step s a := (s.callStacks[a.1]?).bind fun stack =>
    (turn s.shared stack a.2).map fun r => ⟨r.1, s.callStacks.set a.1 r.2⟩

variable {turn : σ → List φ → α → Option (σ × List φ)} {s t : Threads σ φ} {a : ℕ × α}

/-- What a step of the system is. -/
theorem threadMachine_step_eq_some : (threadMachine turn).step s a = some t ↔
    ∃ stack shared stack', s.callStacks[a.1]? = some stack ∧
      turn s.shared stack a.2 = some (shared, stack') ∧
      t = ⟨shared, s.callStacks.set a.1 stack'⟩ := by
  simp only [threadMachine, Option.bind_eq_some_iff, Option.map_eq_some_iff]
  constructor
  · rintro ⟨stack, hs, ⟨shared, stack'⟩, ht, rfl⟩
    exact ⟨stack, shared, stack', hs, ht, rfl⟩
  · rintro ⟨stack, shared, stack', hs, ht, rfl⟩
    exact ⟨stack, hs, ⟨shared, stack'⟩, ht, rfl⟩

/-- The frames of the others stand the change of the shared state. -/
def Stable (J : σ → φ → Prop) (s : Threads σ φ) (shared : σ) : Prop :=
  ∀ stack ∈ s.callStacks, ∀ f ∈ stack, J s.shared f → J shared f

/-- A step keeps `J` where the turn puts good frames and the others are
stable. -/
theorem AllFrames.step {J : σ → φ → Prop} {shared : σ} {stack : List φ} {tid : ℕ}
    (h : s.AllFrames J) (hstable : Stable J s shared) (hnew : ∀ f ∈ stack, J shared f) :
    Threads.AllFrames J ⟨shared, s.callStacks.set tid stack⟩ := by
  intro stack' hstack' f hf
  rcases List.mem_or_eq_of_mem_set hstack' with hold | rfl
  · exact hstable stack' hold f hf (h stack' hold f hf)
  · exact hnew f hf

/-- What is read off the stacks one by one: a turn puts what it leaves in the
place of what was there, and the rest stays. -/
theorem flatMap_set_perm {β γ : Type*} (g : β → List γ) :
    ∀ {l : List β} {i : ℕ} {x : β}, l[i]? = some x →
      ∃ rest, (l.flatMap g).Perm (g x ++ rest) ∧
        ∀ y, ((l.set i y).flatMap g).Perm (g y ++ rest)
  | x :: l, 0, _, rfl => ⟨l.flatMap g, List.Perm.refl _, fun _ => List.Perm.refl _⟩
  | z :: l, i + 1, x, h => by
      have hl : l[i]? = some x := h
      obtain ⟨rest, hrest, hset⟩ := flatMap_set_perm g hl
      have hswap : ∀ {y : β} {m : List β}, (m.flatMap g).Perm (g y ++ rest) →
          ((z :: m).flatMap g).Perm (g y ++ (g z ++ rest)) := by
        intro y m hm
        rw [List.flatMap_cons]
        refine (hm.append_left (g z)).trans ?_
        rw [← List.append_assoc, ← List.append_assoc]
        exact List.perm_append_comm.append_right rest
      exact ⟨g z ++ rest, hswap hrest, fun y => hswap (hset y)⟩

/-- **The invariant rule of threads.** -/
theorem Machine.Run.shared_invariant {C : Threads σ φ → ℕ × α → Prop} {as : List (ℕ × α)}
    {I : σ → Prop} {J : σ → φ → Prop} (h : (threadMachine turn).Run C s as t)
    (hI : I s.shared) (hJ : s.AllFrames J)
    (hturn : ∀ (s : Threads σ φ) tid a stack shared stack',
      I s.shared → s.AllFrames J → C s (tid, a) → s.callStacks[tid]? = some stack →
      turn s.shared stack a = some (shared, stack') →
        I shared ∧ Stable J s shared ∧ ∀ f ∈ stack', J shared f) :
    I t.shared ∧ t.AllFrames J := by
  refine h.invariant (I := fun t => I t.shared ∧ t.AllFrames J) ⟨hI, hJ⟩ ?_
  rintro s ⟨tid, a⟩ u ⟨hI, hJ⟩ hC hstep
  obtain ⟨stack, shared, stack', hs, ht, rfl⟩ := threadMachine_step_eq_some.mp hstep
  obtain ⟨hI', hstable, hnew⟩ := hturn s tid a stack shared stack' hI hJ hC hs ht
  exact ⟨hI', AllFrames.step hJ hstable hnew⟩

end Runs
