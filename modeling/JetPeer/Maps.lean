/-
JetPeer/Maps.lean

Finite maps, by what `lookup` finds in them.

A map is taken as the function it is (`valuesOf`), so that an insert or an
erase is a `Function.update`.  Of two maps one may only have entries the other
has as well (`Follows`); inserting into both and erasing from both keeps that,
and so does erasing from the first alone.
-/
import Mathlib.Data.List.AList

namespace Maps

variable {κ α β : Type*} [DecidableEq κ]

/-! ### Keys -/

theorem mem_of_lookup {m : AList fun _ : κ => α} {k : κ} {x : α} (h : m.lookup k = some x) :
    k ∈ m := by
  apply AList.lookup_isSome.mp
  rw [h]
  rfl

theorem lookup_of_mem {m : AList fun _ : κ => α} {k : κ} (h : k ∈ m) :
    ∃ x, m.lookup k = some x :=
  Option.isSome_iff_exists.mp (AList.lookup_isSome.mpr h)

def valuesOf (m : AList fun _ : κ => α) (k : κ) : Option α := m.lookup k

theorem valuesOf_insert (m : AList fun _ : κ => α) (k : κ) (x : α) :
    valuesOf (m.insert k x) = Function.update (valuesOf m) k (some x) := by
  funext i
  show (m.insert k x).lookup i = _
  rcases eq_or_ne i k with rfl | hi
  · rw [Function.update_self, AList.lookup_insert]
  · rw [Function.update_of_ne hi, AList.lookup_insert_ne hi]
    rfl

theorem valuesOf_erase (m : AList fun _ : κ => α) (k : κ) :
    valuesOf (m.erase k) = Function.update (valuesOf m) k none := by
  funext i
  show (m.erase k).lookup i = _
  rcases eq_or_ne i k with rfl | hi
  · rw [Function.update_self, AList.lookup_erase]
  · rw [Function.update_of_ne hi, AList.lookup_erase_ne hi]
    rfl

/-! ### A map that follows another -/

/-- What `m` has, `m'` has too, up to `f`. -/
def Follows (f : α → β) (m : AList fun _ : κ => α) (m' : AList fun _ : κ => β) : Prop :=
  ∀ k x, m.lookup k = some x → m'.lookup k = some (f x)

variable {f : α → β} {m : AList fun _ : κ => α} {m' : AList fun _ : κ => β}

theorem follows_empty (f : α → β) (m' : AList fun _ : κ => β) :
    Follows f (∅ : AList fun _ : κ => α) m' := by
  intro k x h
  rw [AList.lookup_empty] at h
  cases h

theorem Follows.insert (h : Follows f m m') (k : κ) (x : α) :
    Follows f (m.insert k x) (m'.insert k (f x)) := by
  intro i y hi
  rcases eq_or_ne i k with rfl | hne
  · rw [AList.lookup_insert] at hi
    rw [AList.lookup_insert, Option.some.inj hi]
  · rw [AList.lookup_insert_ne hne] at hi
    rw [AList.lookup_insert_ne hne]
    exact h i y hi

theorem Follows.erase_left (h : Follows f m m') (k : κ) : Follows f (m.erase k) m' := by
  intro i y hi
  rcases eq_or_ne i k with rfl | hne
  · rw [AList.lookup_erase] at hi
    cases hi
  · rw [AList.lookup_erase_ne hne] at hi
    exact h i y hi

theorem Follows.erase (h : Follows f m m') (k : κ) : Follows f (m.erase k) (m'.erase k) := by
  intro i y hi
  rcases eq_or_ne i k with rfl | hne
  · rw [AList.lookup_erase] at hi
    cases hi
  · rw [AList.lookup_erase_ne hne]
    exact h.erase_left k i y hi

end Maps
