/-
JetPeer/Sections.lean

Critical sections that call guests.

A function may hold a mutex while it calls a function of somebody else, a
guest, which may take and give back anything, call back, and take its time.  In
the code of a thread such a section is what stands between the guest and the
`unlock`; `depth m c` counts the mutexes of name `m` that `c` gives back beyond
those it takes, and the section is behind the guest where that is positive
(`Within`).

What a thread holds is what its code gives back (`Bracketed`).  What
stands before a guest gives back all it takes (`Nested`), so the mutexes of a
section are held as long as its guest has not returned, and where another
thread holds the mutex, no guest is in such a section (`guarded_excludes`).

An instruction may give back a mutex through the code it puts in front; `ends`
says which, and `guards` names the mutex under which an instruction runs.
-/
import JetPeer.Locks
import Mathlib.Algebra.BigOperators.Group.List.Basic
import Mathlib.Algebra.Ring.Int.Defs

namespace Locks

open Runs

variable {σ μ ι α : Type*}

/-- Where a run stands in a code of two parts. -/
theorem split_append {c c' c₁ c₂ : List (Stmt μ ι)} {i : ι} (h : c ++ c' = c₁ ++ .run i :: c₂) :
    (∃ d, c = c₁ ++ .run i :: d ∧ c₂ = d ++ c') ∨ ∃ d, c₁ = c ++ d ∧ c' = d ++ .run i :: c₂ := by
  rcases List.append_eq_append_iff.mp h with ⟨d, hd, hd'⟩ | ⟨d, hd, hd'⟩
  · exact .inr ⟨d, hd, hd'⟩
  · cases d with
    | nil => exact .inr ⟨[], by simpa using hd.symm, by simpa using hd'.symm⟩
    | cons y d =>
        obtain ⟨rfl, rfl⟩ := List.cons.inj hd'
        exact .inl ⟨d, hd, rfl⟩

section Code

variable [DecidableEq μ] (ends : ι → Option μ) (m : μ)

/-! ### What code gives back -/

def Stmt.gives : Stmt μ ι → ℤ
  | .lock m' => if m' = m then -1 else 0
  | .unlock m' => if m' = m then 1 else 0
  | .run i => if ends i = some m then 1 else 0

/-- How often the code gives `m` back, less how often it takes it. -/
def depth (c : List (Stmt μ ι)) : ℤ := (c.map (Stmt.gives ends m)).sum

/-- From no point on the code takes more than it gives back. -/
def Gives : List (Stmt μ ι) → Prop
  | [] => True
  | x :: c => 0 ≤ depth ends m (x :: c) ∧ Gives c

/-- So does all that stands before a guest. -/
def Nested (guest : ι → Prop) (c : List (Stmt μ ι)) : Prop :=
  ∀ c₁ i c₂, c = c₁ ++ .run i :: c₂ → guest i → Gives ends m c₁

/-- A guarded instruction is the last of its section. -/
def Guarded (guards : ι → Option μ) (c : List (Stmt μ ι)) : Prop :=
  ∀ c₁ i c₂, c = c₁ ++ .run i :: c₂ → ∀ m ∈ guards i, ∃ c₃, c₂ = .unlock m :: c₃

variable {ends m} {guest : ι → Prop} {guards : ι → Option μ} {c c' : List (Stmt μ ι)}
  {x : Stmt μ ι} {i : ι} {m' : μ}

@[simp] theorem depth_nil : depth ends m ([] : List (Stmt μ ι)) = 0 := rfl

@[simp] theorem depth_cons : depth ends m (x :: c) = x.gives ends m + depth ends m c :=
  List.sum_cons

@[simp] theorem depth_append : depth ends m (c ++ c') = depth ends m c + depth ends m c' := by
  rw [depth, List.map_append, List.sum_append]
  rfl

@[simp] theorem gives_nil : Gives ends m ([] : List (Stmt μ ι)) := trivial

theorem Gives.depth_nonneg (h : Gives ends m c) : 0 ≤ depth ends m c := by
  cases c with
  | nil => exact Int.le_refl 0
  | cons x c => exact h.1

theorem Gives.append (h : Gives ends m c) (h' : Gives ends m c') : Gives ends m (c ++ c') := by
  induction c with
  | nil => exact h'
  | cons x c ih =>
      refine ⟨?_, ih h.2⟩
      have hx := h.1
      have hc' := h'.depth_nonneg
      show 0 ≤ depth ends m ((x :: c) ++ c')
      rw [depth_append]
      omega

theorem Gives.of_append (h : Gives ends m (c ++ c')) : Gives ends m c' := by
  induction c with
  | nil => exact h
  | cons x c ih => exact ih h.2

/-! ### Pieces -/

variable (ends m guest guards) in
/-- A piece of code that gives back `n` times what it has not taken. -/
structure Piece (n : ℤ) (c : List (Stmt μ ι)) : Prop where
  depth_eq : depth ends m c = n
  gives : Gives ends m c
  nested : Nested ends m guest c
  guarded : Guarded guards c

variable {n n' : ℤ}

omit [DecidableEq μ] in
theorem Guarded.append (h : Guarded guards c) (h' : Guarded guards c') :
    Guarded guards (c ++ c') := by
  intro c₁ i c₂ hsplit m hm
  rcases split_append hsplit with ⟨d, hc, rfl⟩ | ⟨d, -, hc'⟩
  · obtain ⟨c₃, rfl⟩ := h c₁ i d hc m hm
    exact ⟨c₃ ++ c', rfl⟩
  · exact h' d i c₂ hc' m hm

theorem Nested.append (h : Nested ends m guest c) (hgives : Gives ends m c)
    (h' : Nested ends m guest c') : Nested ends m guest (c ++ c') := by
  intro c₁ i c₂ hsplit hi
  rcases split_append hsplit with ⟨d, hc, -⟩ | ⟨d, rfl, hc'⟩
  · exact h c₁ i d hc hi
  · exact hgives.append (h' d i c₂ hc' hi)

theorem Piece.append (h : Piece ends m guest guards n c) (h' : Piece ends m guest guards n' c') :
    Piece ends m guest guards (n + n') (c ++ c') where
  depth_eq := by rw [depth_append, h.depth_eq, h'.depth_eq]
  gives := h.gives.append h'.gives
  nested := h.nested.append h.gives h'.nested
  guarded := h.guarded.append h'.guarded

theorem Piece.nil : Piece ends m guest guards 0 ([] : List (Stmt μ ι)) where
  depth_eq := rfl
  gives := trivial
  nested c₁ i c₂ hsplit := by simp at hsplit
  guarded c₁ i c₂ hsplit := by simp at hsplit

theorem Piece.flatMap {γ : Type*} {f : γ → List (Stmt μ ι)} {l : List γ}
    (h : ∀ x ∈ l, Piece ends m guest guards 0 (f x)) :
    Piece ends m guest guards 0 (l.flatMap f) := by
  induction l with
  | nil => exact .nil
  | cons x l ih =>
      rw [List.flatMap_cons]
      exact (h x List.mem_cons_self).append (ih fun y hy => h y (List.mem_cons_of_mem _ hy))

/-- An instruction outside of all sections. -/
theorem Piece.run (hguards : guards i = none) :
    Piece ends m guest guards (if ends i = some m then 1 else 0) [.run i] where
  depth_eq := by simp [Stmt.gives]
  gives := by
    refine ⟨?_, trivial⟩
    simp only [depth_cons, depth_nil, Stmt.gives]
    split <;> decide
  nested c₁ i' c₂ hsplit _ := by
    obtain rfl : c₁ = [] := by
      rcases List.append_eq_singleton_iff.mp hsplit.symm with ⟨h, -⟩ | ⟨-, h⟩
      · exact h
      · cases h
    trivial
  guarded c₁ i' c₂ hsplit m' hm' := by
    rcases List.append_eq_singleton_iff.mp hsplit.symm with ⟨-, h⟩ | ⟨-, h⟩
    · cases h
      rw [hguards] at hm'
      cases hm'
    · cases h

theorem Piece.unlock : Piece ends m guest guards (if m' = m then 1 else 0) [.unlock m'] where
  depth_eq := by simp [Stmt.gives]
  gives := by
    refine ⟨?_, trivial⟩
    simp only [depth_cons, depth_nil, Stmt.gives]
    split <;> decide
  nested c₁ i' c₂ hsplit := by
    rcases List.append_eq_singleton_iff.mp hsplit.symm with ⟨-, h⟩ | ⟨-, h⟩ <;> cases h
  guarded c₁ i' c₂ hsplit := by
    rcases List.append_eq_singleton_iff.mp hsplit.symm with ⟨-, h⟩ | ⟨-, h⟩ <;> cases h

/-- A section an instruction ends. -/
theorem Piece.lock_run (hends : ends i = some m') (hguest : ¬ guest i) (hguards : guards i = none) :
    Piece ends m guest guards 0 [.lock m', .run i] where
  depth_eq := by
    simp only [depth_cons, depth_nil, Stmt.gives, hends, Option.some.injEq]
    split <;> decide
  gives := by
    simp only [Gives, depth_cons, depth_nil, Stmt.gives, hends, Option.some.injEq]
    split <;> decide
  nested c₁ i' c₂ hsplit hi' := by
    rcases split_append (c := [.lock m']) hsplit with ⟨d, hd, -⟩ | ⟨d, rfl, hd⟩
    · rcases List.append_eq_singleton_iff.mp hd.symm with ⟨-, h⟩ | ⟨-, h⟩ <;> cases h
    · rcases List.append_eq_singleton_iff.mp hd.symm with ⟨-, h⟩ | ⟨-, h⟩
      · cases h
        exact absurd hi' hguest
      · cases h
  guarded := by
    have hrun : Piece ends m guest guards (if ends i = some m then 1 else 0) [.run i] :=
      Piece.run hguards
    refine Guarded.append (c := [.lock m']) (fun c₁ i' c₂ hsplit => ?_) hrun.guarded
    rcases List.append_eq_singleton_iff.mp hsplit.symm with ⟨-, h⟩ | ⟨-, h⟩ <;> cases h

/-- A scope around an instruction. -/
theorem Piece.scope (hends : ends i = none) (hguest : ¬ guest i)
    (hguards : ∀ m'' ∈ guards i, m'' = m') :
    Piece ends m guest guards 0 (Stmt.scope m' [.run i]) where
  depth_eq := by
    simp only [Stmt.scope, List.cons_append, List.nil_append, depth_cons, depth_nil, Stmt.gives,
      hends]
    split <;> simp
  gives := by
    simp only [Stmt.scope, List.cons_append, List.nil_append, Gives, depth_cons, depth_nil,
      Stmt.gives, hends]
    split <;> simp
  nested c₁ i' c₂ hsplit hi' := by
    have hmem : Stmt.run i' ∈ Stmt.scope m' [Stmt.run i] := by
      rw [hsplit]
      exact List.mem_append_right _ List.mem_cons_self
    obtain rfl : i' = i := by simpa [Stmt.scope] using hmem
    exact absurd hi' hguest
  guarded c₁ i' c₂ hsplit m'' hm'' := by
    rcases split_append (c := [.lock m', .run i]) hsplit with ⟨d, hd, rfl⟩ | ⟨d, -, hd⟩
    · rcases split_append (c := [.lock m']) hd with ⟨e, he, -⟩ | ⟨e, -, he⟩
      · rcases List.append_eq_singleton_iff.mp he.symm with ⟨-, h⟩ | ⟨-, h⟩ <;> cases h
      · rcases List.append_eq_singleton_iff.mp he.symm with ⟨-, h⟩ | ⟨-, h⟩
        · cases h
          rw [hguards m'' hm'']
          exact ⟨[], rfl⟩
        · cases h
    · rcases List.append_eq_singleton_iff.mp hd.symm with ⟨-, h⟩ | ⟨-, h⟩ <;> cases h

theorem Piece.tail (h : Piece ends m guest guards n (x :: c)) :
    Piece ends m guest guards (n - x.gives ends m) c where
  depth_eq := by
    have hdepth := h.depth_eq
    rw [depth_cons] at hdepth
    omega
  gives := h.gives.2
  nested c₁ i c₂ hsplit hguest := by
    have hsplit' : x :: c = (x :: c₁) ++ .run i :: c₂ := by rw [hsplit]; rfl
    exact (h.nested _ i c₂ hsplit' hguest).2
  guarded c₁ i c₂ hsplit := by
    have hsplit' : x :: c = (x :: c₁) ++ .run i :: c₂ := by rw [hsplit]; rfl
    exact h.guarded _ i c₂ hsplit'

/-! ### A thread -/

variable (ends m guest guards) in
/-- The code of the thread gives back what it holds. -/
def Bracketed (th : Thread μ ι) : Prop :=
  Piece ends m guest guards (th.held.count m : ℤ) th.code

variable (ends m guest) in
/-- A guest is called by a function that still has to give `m` back. -/
def Within (th : Thread μ ι) : Prop :=
  ∃ c₁ i c₂, th.code = c₁ ++ .run i :: c₂ ∧ guest i ∧ 0 < depth ends m c₂

variable {th : Thread μ ι}

theorem gives_run_nonneg : 0 ≤ (Stmt.run i : Stmt μ ι).gives ends m := by
  simp only [Stmt.gives]
  split <;> decide

/-- As long as the guest has not returned, `m` is held. -/
theorem Bracketed.mem_held_of_within (h : Bracketed ends m guest guards th)
    (hwithin : Within ends m guest th) : m ∈ th.held := by
  obtain ⟨c₁, i, c₂, hcode, hguest, hpos⟩ := hwithin
  have hbefore := (h.nested c₁ i c₂ hcode hguest).depth_nonneg
  have hheld := h.depth_eq
  rw [hcode, depth_append, depth_cons] at hheld
  have hrun := @gives_run_nonneg _ _ _ ends m i
  exact List.count_pos_iff.mp (by omega)

/-- A guest is called within the section of the instruction that calls it. -/
theorem Within.of_run {g : ι} {held : List μ} (hops : Piece ends m guest guards 1 (.run g :: c))
    (hc : Gives ends m c') (hguest : guest g) (hends : ends g = none) :
    Within ends m guest ⟨held, .run g :: c ++ c'⟩ := by
  refine ⟨[], g, c ++ c', rfl, hguest, ?_⟩
  have hdepth := hops.depth_eq
  have hg : (Stmt.run g : Stmt μ ι).gives ends m = 0 := if_neg (by simp [hends])
  have hrest := hc.depth_nonneg
  rw [depth_cons, hg] at hdepth
  rw [depth_append]
  omega

/-- A guarded instruction runs under its mutex. -/
theorem Bracketed.mem_held_of_guards (h : Bracketed ends m guest guards th)
    (hcode : th.code = .run i :: c) (hm : m ∈ guards i) : m ∈ th.held := by
  obtain ⟨c', rfl⟩ := h.guarded [] i c hcode m hm
  have hgives := h.gives
  have hheld := h.depth_eq
  rw [hcode] at hgives hheld
  rw [depth_cons, depth_cons] at hheld
  have hrest := hgives.2.2.depth_nonneg
  have hrun := @gives_run_nonneg _ _ _ ends m i
  have hunlock : (Stmt.unlock m : Stmt μ ι).gives ends m = 1 := if_pos rfl
  exact List.count_pos_iff.mp (by omega)

/-! ### Runs -/

variable {P : Program σ μ ι α} {s t : System σ μ ι} {a : ℕ × α}

/-- **A turn** keeps the brackets, if the code an instruction puts in front gives
back what the instruction is to give back. -/
theorem bracketed_step (h : ∀ th ∈ s.threads, Bracketed ends m guest guards th)
    (hstep : (lockMachine P).step s a = some t)
    (hops : ∀ i shared ops, P.run s.shared i a.2 = some (shared, ops) →
      Piece ends m guest guards (if ends i = some m then 1 else 0) ops) :
    ∀ th ∈ t.threads, Bracketed ends m guest guards th := by
  have hset : ∀ {shared th'}, Bracketed ends m guest guards th' →
      ∀ th ∈ (s.setThread shared a.1 th').threads, Bracketed ends m guest guards th := by
    intro shared th' hth' th hth
    rcases List.mem_or_eq_of_mem_set hth with hold | rfl
    · exact h th hold
    · exact hth'
  obtain ⟨th, hth, ⟨m', c, hcode, -, rfl⟩ | ⟨m', c, hcode, rfl⟩ | ⟨i, c, shared, ops, hcode, hrun,
    rfl⟩⟩ := step_cases P hstep
  all_goals
    have hpiece : Piece ends m guest guards _ th.code := h th (List.mem_of_getElem? hth)
    rw [hcode] at hpiece
  · refine hset ?_
    have hcount : ((m' :: th.held).count m : ℤ) =
        th.held.count m - (Stmt.lock m' : Stmt μ ι).gives ends m := by
      simp only [Stmt.gives, List.count_cons, beq_iff_eq]
      split <;> simp
    rw [Bracketed, hcount]
    exact hpiece.tail
  · refine hset ?_
    have hrest := hpiece.tail.gives.depth_nonneg
    rw [hpiece.tail.depth_eq] at hrest
    have hcount : ((th.held.erase m').count m : ℤ) =
        th.held.count m - (Stmt.unlock m' : Stmt μ ι).gives ends m := by
      rw [List.count_erase]
      simp only [Stmt.gives, beq_iff_eq] at hrest ⊢
      split at hrest
      · next heq => rw [if_pos heq, if_pos heq]; omega
      · next hne => rw [if_neg hne, if_neg hne]; omega
    rw [Bracketed, hcount]
    exact hpiece.tail
  · refine hset ?_
    have hnew := (hops i shared ops hrun).append hpiece.tail
    have hsum : (if ends i = some m then 1 else 0 : ℤ) +
        ((th.held.count m : ℤ) - (Stmt.run i : Stmt μ ι).gives ends m) = th.held.count m := by
      simp only [Stmt.gives]
      omega
    rw [hsum] at hnew
    exact hnew

/-- **The rule of sections**: where a thread is at a guarded instruction, no
other thread has called a guest in a section of the same mutex. -/
theorem guarded_excludes {C : System σ μ ι → ℕ × α → Prop} {as : List (ℕ × α)}
    (h : (lockMachine P).Run C s as t) (hex : s.Exclusive)
    (hs : ∀ th ∈ s.threads, Bracketed ends m guest guards th)
    (hops : ∀ shared i a shared' ops, P.run shared i a = some (shared', ops) →
      Piece ends m guest guards (if ends i = some m then 1 else 0) ops)
    {j k : ℕ} {th' : Thread μ ι} (hj : t.threads[j]? = some th) (hk : t.threads[k]? = some th')
    (hcode : th.code = .run i :: c) (hm : m ∈ guards i) :
    m ∈ th.held ∧ (Within ends m guest th' → k = j) := by
  obtain ⟨hbracketed, hexclusive⟩ := h.invariant
    (I := fun t => (∀ th ∈ t.threads, Bracketed ends m guest guards th) ∧ t.Exclusive) ⟨hs, hex⟩
    fun u a v hu _ hstep => ⟨bracketed_step hu.1 hstep fun i shared ops =>
      hops u.shared i a.2 shared ops, hu.2.step hstep⟩
  have hheld := (hbracketed th (List.mem_of_getElem? hj)).mem_held_of_guards hcode hm
  refine ⟨hheld, fun hwithin => ?_⟩
  have hheld' := (hbracketed th' (List.mem_of_getElem? hk)).mem_held_of_within hwithin
  refine hexclusive k j m ?_ ?_
  · rw [System.heldBy_of_getElem? hk]
    exact hheld'
  · rw [System.heldBy_of_getElem? hj]
    exact hheld

end Code

end Locks
