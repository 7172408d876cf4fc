/-
JetPeer/Walks.lean

Walking through a hash table that changes meanwhile.

A hash table is the list of its elements in the order of iteration.  An
iterator stands at one of them or behind the last, so it cuts the list in two
(`passed`, `rest`).  A loop over the table enters its body for the element the
iterator stands at and leaves it by a step forward; the body may change the
table.  Erasing the element the iterator stands at leaves the iterator
invalid, and so does an insertion that makes the table rehash, which it does
when there are more elements than buckets.  All other changes leave it where
it is, but a new element may come before it as well as behind it.

If every change keeps the iterator (`Keeps`), the loop never gets stuck, and
when it ends it has visited each element it began with exactly once, those
aside that were removed before their turn (`WalkInv.step`).
-/
import JetPeer.Runs
import Mathlib.Data.List.Nodup
import Mathlib.Data.List.Perm.Subperm

namespace Walks

open Runs

/-! ### Tables with an iterator -/

/-- A loop over a hash table, and what has happened since it began. -/
structure Walk (α : Type*) where
  /-- The elements before the iterator. -/
  passed : List α
  /-- The element the iterator stands at, and those behind it. -/
  rest : List α
  buckets : ℕ
  valid : Bool := true
  inBody : Bool := false
  visited : List α := []
  removed : List α := []
  added : List α := []

/-- A step of the loop, or a change of the table in its body. -/
inductive Change (α : Type*) where
  | enter
  | leave
  | erase (x : α)
  /-- In place of an element, where the key is in the table. -/
  | replace (x y : α)
  /-- A new element, before the iterator or behind it, at the `i`-th place;
  and the number of buckets, should the table rehash. -/
  | insert (y : α) (before : Bool) (i buckets : ℕ)

variable {α : Type*} [DecidableEq α]

namespace Walk

/-- The loop begins. -/
def start (l : List α) (buckets : ℕ) : Walk α where
  passed := []
  rest := l
  buckets := buckets

abbrev elements (w : Walk α) : List α := w.passed ++ w.rest

/-- The elements still to be visited, as far as they are there. -/
def ahead (w : Walk α) : List α := if w.inBody then w.rest.tail else w.rest

/-- The loop has come to its end. -/
def Done (w : Walk α) : Prop := w.inBody = false ∧ w.rest = []

/-- The element has never been in the table. -/
def Fresh (w : Walk α) (x : α) : Prop := x ∉ w.elements ∧ x ∉ w.visited ∧ x ∉ w.removed

instance (w : Walk α) (x : α) : Decidable (w.Fresh x) :=
  inferInstanceAs (Decidable (x ∉ w.elements ∧ x ∉ w.visited ∧ x ∉ w.removed))

end Walk

/-- `x` at the `i`-th place. -/
def putAt (i : ℕ) (x : α) (l : List α) : List α := l.take i ++ x :: l.drop i

/-- `y` in the place of `x`. -/
def swap (x y : α) (l : List α) : List α := l.map fun z => if z = x then y else z

/-- One step.  An invalid iterator must not be used. -/
def walkStep (w : Walk α) : Change α → Option (Walk α)
  | .enter =>
      match w.valid, w.inBody, w.rest with
      | true, false, x :: _ => some { w with inBody := true, visited := w.visited ++ [x] }
      | _, _, _ => none
  | .leave =>
      match w.valid, w.inBody, w.rest with
      | true, true, x :: rest =>
          some { w with passed := w.passed ++ [x], rest := rest, inBody := false }
      | _, _, _ => none
  | .erase x =>
      if w.inBody ∧ x ∈ w.elements then
        some { w with
          passed := w.passed.erase x
          rest := w.rest.erase x
          valid := w.valid && w.rest.head? ≠ some x
          removed := w.removed ++ [x] }
      else none
  | .replace x y =>
      if w.inBody ∧ x ∈ w.elements ∧ w.Fresh y then
        some { w with
          passed := swap x y w.passed
          rest := swap x y w.rest
          removed := w.removed ++ [x]
          added := w.added ++ [y] }
      else none
  | .insert y before i buckets =>
      if w.inBody ∧ w.Fresh y then
        some { w with
          passed := if before then putAt i y w.passed else w.passed
          rest := if before then w.rest else w.rest.take 1 ++ putAt i y w.rest.tail
          valid := w.valid && w.elements.length + 1 ≤ w.buckets
          buckets := if w.elements.length + 1 ≤ w.buckets then w.buckets else buckets
          added := w.added ++ [y] }
      else none

def walkMachine : Machine (Walk α) (Change α) := ⟨walkStep⟩

/-- The change keeps the iterator: the element it stands at is not erased, and
there are buckets enough for a new one. -/
def Keeps (w : Walk α) : Change α → Prop
  | .erase x => w.rest.head? ≠ some x
  | .insert .. => w.elements.length + 1 ≤ w.buckets
  | _ => True

/-- A step leaves a valid iterator valid if and only if it keeps it. -/
theorem walkStep_valid_iff {w u : Walk α} {c : Change α} (hvalid : w.valid = true)
    (h : walkStep w c = some u) : u.valid = true ↔ Keeps w c := by
  cases c with
  | enter =>
      simp only [walkStep] at h
      split at h
      · obtain rfl := Option.some.inj h
        exact ⟨fun _ => trivial, fun _ => hvalid⟩
      · cases h
  | leave =>
      simp only [walkStep] at h
      split at h
      · obtain rfl := Option.some.inj h
        exact ⟨fun _ => trivial, fun _ => hvalid⟩
      · cases h
  | erase x =>
      obtain ⟨-, h⟩ := Option.ite_none_right_eq_some.mp h
      obtain rfl := Option.some.inj h
      simp [Keeps, hvalid]
  | replace x y =>
      obtain ⟨-, h⟩ := Option.ite_none_right_eq_some.mp h
      obtain rfl := Option.some.inj h
      exact ⟨fun _ => trivial, fun _ => hvalid⟩
  | insert y before i buckets =>
      obtain ⟨-, h⟩ := Option.ite_none_right_eq_some.mp h
      obtain rfl := Option.some.inj h
      simp [Keeps, hvalid]

/-! ### Lists with one change -/

section

variable {l : List α} {x y z : α} {i : ℕ}

omit [DecidableEq α] in
theorem putAt_perm : (putAt i x l).Perm (x :: l) := by
  have h : (putAt i x l).Perm (x :: (l.take i ++ l.drop i)) := List.perm_middle
  rwa [List.take_append_drop] at h

omit [DecidableEq α] in
theorem mem_putAt : y ∈ putAt i x l ↔ y = x ∨ y ∈ l := putAt_perm.mem_iff.trans List.mem_cons

theorem mem_swap : z ∈ swap x y l ↔ (z = y ∧ x ∈ l) ∨ (z ∈ l ∧ z ≠ x) := by
  simp only [swap, List.mem_map]
  constructor
  · rintro ⟨a, ha, rfl⟩
    by_cases hax : a = x
    · subst hax
      exact .inl ⟨if_pos rfl, ha⟩
    · rw [if_neg hax]
      exact .inr ⟨ha, hax⟩
  · rintro (⟨rfl, hx⟩ | ⟨hz, hzx⟩)
    · exact ⟨x, hx, if_pos rfl⟩
    · exact ⟨z, hz, if_neg hzx⟩

/-- A new element in the place of an old one keeps the elements distinct. -/
theorem nodup_swap (h : l.Nodup) (hy : y ∉ l) : (swap x y l).Nodup := by
  refine h.map_on fun a ha b hb hab => ?_
  split_ifs at hab with hax hbx hbx
  · rw [hax, hbx]
  · exact absurd (hab ▸ hb) hy
  · exact absurd (hab ▸ ha) hy
  · exact hab

theorem swap_append (l l' : List α) : swap x y (l ++ l') = swap x y l ++ swap x y l' :=
  List.map_append

end

/-! ### The elements after a step -/

section

variable {w u : Walk α} {x y : α}

theorem elements_enter (h : walkStep w .enter = some u) : u.elements = w.elements := by
  obtain ⟨passed, rest, buckets, valid, inBody, visited, removed, added⟩ := w
  cases valid <;> cases inBody <;> cases rest <;> cases h
  rfl

theorem elements_leave (h : walkStep w .leave = some u) : u.elements = w.elements := by
  obtain ⟨passed, rest, buckets, valid, inBody, visited, removed, added⟩ := w
  cases valid <;> cases inBody <;> cases rest <;> cases h
  exact List.append_assoc _ _ _

theorem elements_erase (h : walkStep w (.erase x) = some u) : u.elements.Sublist w.elements := by
  obtain ⟨-, h⟩ := Option.ite_none_right_eq_some.mp h
  obtain rfl := Option.some.inj h
  exact List.erase_sublist.append List.erase_sublist

theorem elements_replace (h : walkStep w (.replace x y) = some u) :
    u.elements = swap x y w.elements := by
  obtain ⟨-, h⟩ := Option.ite_none_right_eq_some.mp h
  obtain rfl := Option.some.inj h
  exact (swap_append _ _).symm

theorem elements_insert {before : Bool} {i buckets : ℕ}
    (h : walkStep w (.insert y before i buckets) = some u) :
    u.elements.Perm (y :: w.elements) := by
  obtain ⟨-, h⟩ := Option.ite_none_right_eq_some.mp h
  obtain rfl := Option.some.inj h
  cases before with
  | true => exact putAt_perm.append_right _
  | false =>
      have hrest : (w.rest.take 1 ++ putAt i y w.rest.tail).Perm (y :: w.rest) := by
        refine (putAt_perm.append_left _).trans (List.perm_middle.trans (List.Perm.cons y ?_))
        rw [← List.drop_one, List.take_append_drop]
      exact (hrest.append_left w.passed).trans List.perm_middle

/-- The element a change puts into the table. -/
def Change.new : Change α → Option α
  | .replace _ y => some y
  | .insert y .. => some y
  | _ => none

/-- The element is, or has been, in the table. -/
def Walk.Known (w : Walk α) (x : α) : Prop := x ∈ w.elements ∨ x ∈ w.visited ∨ x ∈ w.removed

theorem walkStep_added {c : Change α} (h : walkStep w c = some u) :
    u.added = w.added ++ c.new.toList := by
  obtain ⟨passed, rest, buckets, valid, inBody, visited, removed, added⟩ := w
  cases c with
  | enter =>
      cases valid <;> cases inBody <;> cases rest <;> cases h
      exact (List.append_nil _).symm
  | leave =>
      cases valid <;> cases inBody <;> cases rest <;> cases h
      exact (List.append_nil _).symm
  | erase x =>
      obtain ⟨-, h⟩ := Option.ite_none_right_eq_some.mp h
      obtain rfl := Option.some.inj h
      exact (List.append_nil _).symm
  | _ =>
      obtain ⟨-, h⟩ := Option.ite_none_right_eq_some.mp h
      obtain rfl := Option.some.inj h
      rfl

theorem walkStep_known {c : Change α} (h : walkStep w c = some u) (hx : u.Known x) :
    w.Known x ∨ c.new = some x := by
  cases c with
  | enter =>
      refine .inl ?_
      rw [Walk.Known, elements_enter h] at hx
      obtain ⟨passed, rest, buckets, valid, inBody, visited, removed, added⟩ := w
      cases valid <;> cases inBody <;> cases rest <;> cases h
      rename_i y rest
      rcases hx with hx | hx | hx
      · exact .inl hx
      · rcases List.mem_append.mp hx with hx | hx
        · exact .inr (.inl hx)
        · obtain rfl := List.mem_singleton.mp hx
          exact .inl (List.mem_append_right _ List.mem_cons_self)
      · exact .inr (.inr hx)
  | leave =>
      refine .inl ?_
      rw [Walk.Known, elements_leave h] at hx
      obtain ⟨passed, rest, buckets, valid, inBody, visited, removed, added⟩ := w
      cases valid <;> cases inBody <;> cases rest <;> cases h
      exact hx
  | erase z =>
      have hsub := elements_erase h
      obtain ⟨⟨-, hz⟩, h⟩ := Option.ite_none_right_eq_some.mp h
      obtain rfl := Option.some.inj h
      refine .inl ?_
      rcases hx with hx | hx | hx
      · exact .inl (hsub.subset hx)
      · exact .inr (.inl hx)
      · rcases List.mem_append.mp hx with hx | hx
        · exact .inr (.inr hx)
        · exact .inl (List.mem_singleton.mp hx ▸ hz)
  | replace z y =>
      have helements := elements_replace h
      obtain ⟨⟨-, hz, -⟩, h⟩ := Option.ite_none_right_eq_some.mp h
      obtain rfl := Option.some.inj h
      rcases hx with hx | hx | hx
      · rw [helements] at hx
        rcases mem_swap.mp hx with ⟨rfl, -⟩ | ⟨hx, -⟩
        · exact .inr rfl
        · exact .inl (.inl hx)
      · exact .inl (.inr (.inl hx))
      · rcases List.mem_append.mp hx with hx | hx
        · exact .inl (.inr (.inr hx))
        · exact .inl (.inl (List.mem_singleton.mp hx ▸ hz))
  | insert y before i buckets =>
      have hperm := elements_insert h
      obtain ⟨-, h⟩ := Option.ite_none_right_eq_some.mp h
      obtain rfl := Option.some.inj h
      rcases hx with hx | hx
      · rcases List.mem_cons.mp (hperm.mem_iff.mp hx) with rfl | hx
        · exact .inr rfl
        · exact .inl (.inl hx)
      · exact .inl (.inr hx)

end

/-! ### The invariant -/

/-- Nothing ahead has been visited, nothing removed is still there, and what
was there in the beginning has been visited, is still ahead, or is gone. -/
structure WalkInv (l : List α) (w : Walk α) : Prop where
  valid : w.valid = true
  stands : w.inBody = true → w.rest ≠ []
  nodup : w.elements.Nodup
  once : w.visited.Nodup
  ahead : ∀ x ∈ w.ahead, x ∉ w.visited
  gone : ∀ x ∈ w.removed, x ∉ w.elements
  begun : ∀ x ∈ l, x ∈ w.visited ∨ x ∈ w.removed ∨ x ∈ w.ahead
  origin : ∀ x, x ∈ w.elements ∨ x ∈ w.visited → x ∈ l ∨ x ∈ w.added

section

variable {l : List α} {w u : Walk α} {c : Change α}

omit [DecidableEq α] in
theorem walkInv_start (h : l.Nodup) (buckets : ℕ) : WalkInv l (Walk.start l buckets) where
  valid := rfl
  stands h := nomatch h
  nodup := h
  once := List.nodup_nil
  ahead _ _ := List.not_mem_nil
  gone _ h := absurd h List.not_mem_nil
  begun _ h := .inr (.inr h)
  origin _ h := .inl (h.resolve_right List.not_mem_nil)

theorem WalkInv.enter (h : WalkInv l w) (hstep : walkStep w .enter = some u) : WalkInv l u := by
  obtain ⟨passed, rest, buckets, valid, inBody, visited, removed, added⟩ := w
  cases valid <;> cases inBody <;> cases rest <;> cases hstep
  rename_i x rest
  have hx : x ∉ visited := h.ahead x List.mem_cons_self
  have hnodup : (x :: rest).Nodup := (List.nodup_append.mp h.nodup).2.1
  refine ⟨rfl, fun _ => List.cons_ne_nil _ _, h.nodup, ?_, ?_, h.gone, ?_, ?_⟩
  · -- the element entered has not been visited before
    exact List.nodup_append.mpr ⟨h.once, List.nodup_singleton x, fun a ha b hb hab =>
      hx (List.mem_singleton.mp hb ▸ hab ▸ ha)⟩
  · intro y hy hvisited
    rcases List.mem_append.mp hvisited with hold | hnew
    · exact h.ahead y (List.mem_cons_of_mem _ hy) hold
    · exact (List.nodup_cons.mp hnodup).1 (List.mem_singleton.mp hnew ▸ hy)
  · intro y hy
    rcases h.begun y hy with hv | hr | ha
    · exact .inl (List.mem_append_left _ hv)
    · exact .inr (.inl hr)
    · rcases List.mem_cons.mp ha with rfl | ha
      · exact .inl (List.mem_append_right _ (List.mem_singleton.mpr rfl))
      · exact .inr (.inr ha)
  · rintro y (hy | hy)
    · exact h.origin y (.inl hy)
    · rcases List.mem_append.mp hy with hy | hy
      · exact h.origin y (.inr hy)
      · obtain rfl := List.mem_singleton.mp hy
        exact h.origin y (.inl (List.mem_append_right _ List.mem_cons_self))

theorem WalkInv.leave (h : WalkInv l w) (hstep : walkStep w .leave = some u) : WalkInv l u := by
  obtain ⟨passed, rest, buckets, valid, inBody, visited, removed, added⟩ := w
  cases valid <;> cases inBody <;> cases rest <;> cases hstep
  rename_i x rest
  have helements : (passed ++ [x]) ++ rest = passed ++ x :: rest := by simp
  refine ⟨rfl, fun h => (nomatch h), ?_, h.once, h.ahead, ?_, h.begun, ?_⟩
  · show ((passed ++ [x]) ++ rest).Nodup
    rw [helements]
    exact h.nodup
  · intro y hy hmem
    refine h.gone y hy ?_
    show y ∈ passed ++ x :: rest
    rwa [← helements]
  · rintro y (hy | hy)
    · refine h.origin y (.inl ?_)
      show y ∈ passed ++ x :: rest
      rwa [← helements]
    · exact h.origin y (.inr hy)

theorem WalkInv.erase {x : α} (h : WalkInv l w) (hkeeps : Keeps w (.erase x))
    (hstep : walkStep w (.erase x) = some u) : WalkInv l u := by
  have hsub := elements_erase hstep
  obtain ⟨⟨hbody, hx⟩, hstep⟩ := Option.ite_none_right_eq_some.mp hstep
  obtain ⟨y, rest, hrest⟩ := List.exists_cons_of_ne_nil (h.stands hbody)
  obtain ⟨passed, _, buckets, valid, inBody, visited, removed, added⟩ := w
  dsimp only at hbody hrest
  subst hbody hrest
  have hne : y ≠ x := fun hyx => hkeeps (congrArg some hyx)
  have herase : (y :: rest).erase x = y :: rest.erase x := List.erase_cons_tail (by simpa using hne)
  have hvalid : (valid && decide ((y :: rest).head? ≠ some x)) = true := by
    simp [show valid = true from h.valid, hne]
  obtain rfl := Option.some.inj hstep
  obtain ⟨hpassed, hrest, -⟩ := List.nodup_append.mp (show (passed ++ y :: rest).Nodup from h.nodup)
  refine ⟨hvalid, fun _ => ?_, hsub.nodup h.nodup, h.once, ?_, ?_, ?_, ?_⟩
  · show (y :: rest).erase x ≠ []
    rw [herase]
    exact List.cons_ne_nil _ _
  · intro z hz
    change z ∈ ((y :: rest).erase x).tail at hz
    rw [herase] at hz
    exact h.ahead z (List.erase_sublist.subset hz)
  · intro z hz hmem
    rcases List.mem_append.mp hz with hz | hz
    · exact h.gone z hz (hsub.subset hmem)
    · obtain rfl := List.mem_singleton.mp hz
      exact (List.mem_append.mp hmem).elim (List.Nodup.not_mem_erase hpassed)
        (List.Nodup.not_mem_erase hrest)
  · intro z hz
    rcases h.begun z hz with hv | hr | ha
    · exact .inl hv
    · exact .inr (.inl (List.mem_append_left _ hr))
    · by_cases hzx : z = x
      · exact .inr (.inl (List.mem_append_right _ (List.mem_singleton.mpr hzx)))
      · refine .inr (.inr ?_)
        show z ∈ ((y :: rest).erase x).tail
        rw [herase]
        exact (List.mem_erase_of_ne hzx).mpr ha
  · exact fun z hz => h.origin z (hz.imp_left fun hz => hsub.subset hz)

theorem WalkInv.replace {x y : α} (h : WalkInv l w)
    (hstep : walkStep w (.replace x y) = some u) : WalkInv l u := by
  have helements := elements_replace hstep
  obtain ⟨⟨hbody, hx, hfresh, hvisited, hremoved⟩, hstep⟩ := Option.ite_none_right_eq_some.mp hstep
  obtain ⟨passed, rest, buckets, valid, inBody, visited, removed, added⟩ := w
  dsimp only at hbody
  subst hbody
  obtain rfl := Option.some.inj hstep
  have htail : (swap x y rest).tail = swap x y rest.tail := by
    cases rest <;> rfl
  refine ⟨h.valid, fun _ hnil => ?_, ?_, h.once, ?_, ?_, ?_, ?_⟩
  · exact h.stands rfl (List.map_eq_nil_iff.mp hnil)
  · rw [helements]
    exact nodup_swap h.nodup hfresh
  · intro z hz
    change z ∈ (swap x y rest).tail at hz
    rw [htail] at hz
    rcases mem_swap.mp hz with ⟨rfl, -⟩ | ⟨hz, -⟩
    · exact hvisited
    · exact h.ahead z hz
  · intro z hz hmem
    rw [helements] at hmem
    rcases mem_swap.mp hmem with ⟨rfl, -⟩ | ⟨hold, hzx⟩
    · rcases List.mem_append.mp hz with hz | hz
      · exact hremoved hz
      · exact hfresh (List.mem_singleton.mp hz ▸ hx)
    · rcases List.mem_append.mp hz with hz | hz
      · exact h.gone z hz hold
      · exact hzx (List.mem_singleton.mp hz)
  · intro z hz
    rcases h.begun z hz with hv | hr | ha
    · exact .inl hv
    · exact .inr (.inl (List.mem_append_left _ hr))
    · by_cases hzx : z = x
      · exact .inr (.inl (List.mem_append_right _ (List.mem_singleton.mpr hzx)))
      · refine .inr (.inr ?_)
        show z ∈ (swap x y rest).tail
        rw [htail]
        exact mem_swap.mpr (.inr ⟨ha, hzx⟩)
  · rintro z (hz | hz)
    · rw [helements] at hz
      rcases mem_swap.mp hz with ⟨rfl, -⟩ | ⟨hz, -⟩
      · exact .inr (List.mem_append_right _ (List.mem_singleton.mpr rfl))
      · exact (h.origin z (.inl hz)).imp_right (List.mem_append_left _)
    · exact (h.origin z (.inr hz)).imp_right (List.mem_append_left _)

theorem WalkInv.insert {y : α} {before : Bool} {i buckets : ℕ} (h : WalkInv l w)
    (hkeeps : Keeps w (.insert y before i buckets))
    (hstep : walkStep w (.insert y before i buckets) = some u) : WalkInv l u := by
  have hperm := elements_insert hstep
  obtain ⟨⟨hbody, hfresh, hvisited, hremoved⟩, hstep⟩ := Option.ite_none_right_eq_some.mp hstep
  obtain ⟨x, rest, hrest⟩ := List.exists_cons_of_ne_nil (h.stands hbody)
  obtain ⟨passed, _, b, valid, inBody, visited, removed, added⟩ := w
  dsimp only at hbody hrest
  subst hbody hrest
  -- the parts of the table after the change
  obtain ⟨passed', rest', hpassed', hrest'⟩ : ∃ passed' rest',
      (if before then putAt i y passed else passed) = passed' ∧
        (if before then x :: rest else [x] ++ putAt i y rest) = x :: rest' :=
    ⟨_, if before then rest else putAt i y rest, rfl, by cases before <;> rfl⟩
  have hahead : ∀ z, z ∈ rest' → z = y ∨ z ∈ rest := by
    intro z hz
    cases before with
    | true => exact .inr ((List.cons.inj hrest').2 ▸ hz)
    | false => exact mem_putAt.mp ((List.cons.inj hrest').2 ▸ hz)
  have hkeep : ∀ z, z ∈ rest → z ∈ rest' := by
    intro z hz
    cases before with
    | true => exact (List.cons.inj hrest').2 ▸ hz
    | false => exact (List.cons.inj hrest').2 ▸ mem_putAt.mpr (.inr hz)
  have hu : u = ⟨passed', x :: rest', b, true, true, visited, removed, added ++ [y]⟩ := by
    have hroom : (passed ++ x :: rest).length + 1 ≤ b := hkeeps
    have hvalid : valid = true := h.valid
    rw [← Option.some.inj hstep, ← hpassed', ← hrest']
    simp only [if_pos hroom, decide_eq_true hroom, Bool.and_true, hvalid]
    rfl
  subst hu
  refine ⟨rfl, fun _ => List.cons_ne_nil _ _, hperm.nodup_iff.mpr
    (List.nodup_cons.mpr ⟨hfresh, h.nodup⟩), h.once, ?_, ?_, ?_, ?_⟩
  · intro z hz
    rcases hahead z hz with rfl | hz
    · exact hvisited
    · exact h.ahead z hz
  · intro z hz hmem
    rcases List.mem_cons.mp (hperm.mem_iff.mp hmem) with rfl | hold
    · exact hremoved hz
    · exact h.gone z hz hold
  · exact fun z hz => (h.begun z hz).imp_right fun h => h.imp_right (hkeep z)
  · rintro z (hz | hz)
    · rcases List.mem_cons.mp (hperm.mem_iff.mp hz) with rfl | hold
      · exact .inr (List.mem_append_right _ (List.mem_singleton.mpr rfl))
      · exact (h.origin z (.inl hold)).imp_right (List.mem_append_left _)
    · exact (h.origin z (.inr hz)).imp_right (List.mem_append_left _)

/-- **One step** that keeps the iterator keeps the invariant. -/
theorem WalkInv.step (h : WalkInv l w) (hkeeps : Keeps w c)
    (hstep : walkMachine.step w c = some u) : WalkInv l u := by
  change walkStep w c = some u at hstep
  cases c with
  | enter => exact h.enter hstep
  | leave => exact h.leave hstep
  | erase x => exact h.erase hkeeps hstep
  | replace x y => exact h.replace hstep
  | insert y before i buckets => exact h.insert hkeeps hstep

/-- The loop goes on until it is done. -/
theorem WalkInv.goes_on (h : WalkInv l w) :
    w.Done ∨ (walkStep w .enter).isSome ∨ (walkStep w .leave).isSome := by
  obtain ⟨passed, rest, buckets, valid, inBody, visited, removed, added⟩ := w
  obtain rfl : valid = true := h.valid
  cases inBody with
  | false =>
      cases rest with
      | nil => exact .inl ⟨rfl, rfl⟩
      | cons x rest => exact .inr (.inl rfl)
  | true =>
      cases rest with
      | nil => exact absurd rfl (h.stands rfl)
      | cons x rest => exact .inr (.inr rfl)

/-- At the end, each element of the beginning has been visited once, or not at
all because it was removed before its turn. -/
theorem WalkInv.visited_once (h : WalkInv l w) (hdone : w.Done) {x : α} (hx : x ∈ l) :
    w.visited.count x = 1 ∨ (x ∈ w.removed ∧ w.visited.count x = 0) := by
  rcases Decidable.em (x ∈ w.visited) with hv | hv
  · exact .inl (List.count_eq_one_of_mem h.once hv)
  · refine .inr ⟨?_, List.count_eq_zero.mpr hv⟩
    have hahead : w.ahead = [] := by
      rw [Walk.ahead, hdone.1, hdone.2]
      rfl
    rcases h.begun x hx with hv' | hr | ha
    · exact absurd hv' hv
    · exact hr
    · rw [hahead] at ha
      exact absurd ha List.not_mem_nil

omit [DecidableEq α] in
/-- There are no more turns than elements in the beginning and new ones. -/
theorem WalkInv.length_visited_le (h : WalkInv l w) :
    w.visited.length ≤ l.length + w.added.length := by
  rw [← List.length_append]
  refine (h.once.subperm fun x hx => ?_).length_le
  exact List.mem_append.mpr (h.origin x (.inr hx))

end

end Walks
