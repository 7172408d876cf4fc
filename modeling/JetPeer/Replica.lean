/-
JetPeer/Replica.lean

A copy of a map that is kept up to date by updates in flight.

The primary changes; a subscriber is sent first a snapshot and then every
change, in order, and applies them one by one; the connection may break at any
time and takes along what is in flight.  Nothing here is about a particular
store: keys and values are arbitrary.

While subscribed, the updates in flight lead from the copy to the primary,

    replay us copy = primary                        (`InStep`),

so the two agree when nothing is in flight.  Every step keeps this but the
snapshot, which only writes: what the copy has and the primary has not, it
leaves there.  `replay_snapshot_iff` says that nothing else can go wrong.
-/
import Mathlib.Logic.Function.Basic
import Mathlib.Data.List.Basic

namespace Replicas

variable {κ ν : Type*} [DecidableEq κ]

/-! ### Updates -/

inductive Update (κ ν : Type*) where
  | put (k : κ) (v : ν)
  | delete (k : κ)

def Update.apply (m : κ → Option ν) : Update κ ν → κ → Option ν
  | .put k v => Function.update m k (some v)
  | .delete k => Function.update m k none

/-- The map after a list of updates, the first one first. -/
def replay (us : List (Update κ ν)) (m : κ → Option ν) : κ → Option ν :=
  us.foldl Update.apply m

@[simp] theorem replay_nil (m : κ → Option ν) : replay [] m = m := rfl

@[simp] theorem replay_cons (u : Update κ ν) (us : List (Update κ ν)) (m : κ → Option ν) :
    replay (u :: us) m = replay us (u.apply m) := rfl

/-- One more update at the end. -/
theorem replay_concat (us : List (Update κ ν)) (u : Update κ ν) (m : κ → Option ν) :
    replay (us ++ [u]) m = u.apply (replay us m) := List.foldl_concat ..

/-! ### Snapshots -/

/-- `us` writes what the map has, all of it and in any order. -/
structure Snapshot (p : κ → Option ν) (us : List (Update κ ν)) : Prop where
  sound : ∀ u ∈ us, ∃ k v, u = .put k v ∧ p k = some v
  complete : ∀ k v, p k = some v → .put k v ∈ us

/-- The copy has no key the primary has not. -/
def Covers (p c : κ → Option ν) : Prop := ∀ k, p k = none → c k = none

section Snapshots

variable {p c : κ → Option ν} {us : List (Update κ ν)} {k : κ}

/-- A key that is written has its value afterwards. -/
theorem replay_of_mem (hsound : ∀ u ∈ us, ∃ k v, u = .put k v ∧ p k = some v) {v : ν}
    (h : .put k v ∈ us ∨ c k = p k) : replay us c k = p k := by
  induction us generalizing c with
  | nil => exact h.resolve_left List.not_mem_nil
  | cons u us ih =>
      obtain ⟨k', v', rfl, hv'⟩ := hsound u List.mem_cons_self
      rw [replay_cons]
      refine ih (fun u hu => hsound u (List.mem_cons_of_mem _ hu)) ?_
      rcases eq_or_ne k k' with rfl | hk
      · -- from here on the value stands
        right
        show Function.update c k (some v') k = p k
        rw [Function.update_self, hv']
      · rcases h with h | h
        · rcases List.mem_cons.mp h with h | h
          · cases h
            exact absurd rfl hk
          · exact .inl h
        · right
          show Function.update c k' (some v') k = p k
          rw [Function.update_of_ne hk, h]

/-- A key the primary has not is left as it was. -/
theorem replay_of_none (hsound : ∀ u ∈ us, ∃ k v, u = .put k v ∧ p k = some v)
    (h : p k = none) : replay us c k = c k := by
  induction us generalizing c with
  | nil => rfl
  | cons u us ih =>
      obtain ⟨k', v', rfl, hv'⟩ := hsound u List.mem_cons_self
      have hk : k ≠ k' := by
        rintro rfl
        rw [h] at hv'
        cases hv'
      rw [replay_cons, ih fun u hu => hsound u (List.mem_cons_of_mem _ hu)]
      exact Function.update_of_ne hk _ _

/-- **A snapshot makes the copy the primary** exactly if the copy has no key
too many. -/
theorem replay_snapshot_iff (h : Snapshot p us) : replay us c = p ↔ Covers p c := by
  constructor
  · intro heq k hk
    have hleft : replay us c k = c k := replay_of_none h.sound hk
    rw [← hleft, heq, hk]
  · intro hcovers
    funext k
    rcases hk : p k with - | v
    · rw [replay_of_none h.sound hk, hcovers k hk]
    · rw [← hk]
      exact replay_of_mem h.sound (.inl (h.complete k v hk))

end Snapshots

/-! ### Steps -/

structure Replica (κ ν : Type*) where
  primary : κ → Option ν
  copy : κ → Option ν
  /-- The updates in flight; `none` without a subscription. -/
  pending : Option (List (Update κ ν))

/-- What is in flight leads from the copy to the primary. -/
def InStep (r : Replica κ ν) : Prop := ∀ us, r.pending = some us → replay us r.copy = r.primary

inductive Step : Replica κ ν → Replica κ ν → Prop
  | change {p c q} (u : Update κ ν) : Step ⟨p, c, q⟩ ⟨u.apply p, c, q.map (· ++ [u])⟩
  | subscribe {p c us} : Snapshot p us → Step ⟨p, c, none⟩ ⟨p, c, some us⟩
  | receive {p c u us} : Step ⟨p, c, some (u :: us)⟩ ⟨p, u.apply c, some us⟩
  | lose {p c q} : Step ⟨p, c, q⟩ ⟨p, c, none⟩

variable {r r' : Replica κ ν}

/-- **The step lemma**: the two stay in step, if a subscription finds no key
too many. -/
theorem Step.inStep (h : Step r r') (hi : InStep r)
    (hcovers : r.pending = none → r'.pending ≠ none → Covers r.primary r.copy) : InStep r' := by
  cases h with
  | change u =>
      rintro us' hus
      obtain ⟨us, hq, rfl⟩ := Option.map_eq_some_iff.mp hus
      show replay (us ++ [u]) _ = _
      rw [replay_concat, hi us hq]
  | subscribe hsnapshot =>
      rintro us' hus
      cases hus
      exact (replay_snapshot_iff hsnapshot).mpr (hcovers rfl (by simp))
  | receive =>
      rintro us' hus
      cases hus
      exact hi _ rfl
  | lose =>
      rintro us' hus
      cases hus

/-- Nothing in flight: the copy is the primary. -/
theorem InStep.agree (h : InStep r) (hdrained : r.pending = some []) : r.copy = r.primary :=
  h [] hdrained

end Replicas
