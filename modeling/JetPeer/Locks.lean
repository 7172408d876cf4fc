/-
JetPeer/Locks.lean

Threads that take mutexes.

The code of a thread is a list of statements: it takes a mutex, gives one
back, or runs an instruction, which changes the shared state and may put more
code in front of the rest.  A thread keeps the list of the mutexes it holds;
one that is recursive may stand in it more than once.

A thread at a `lock` waits for whoever holds that mutex, and the threads are
deadlocked when one of them waits for itself along a chain of others.  If the
mutexes have ranks, and every thread takes them upwards only (`Upward`), no
such chain closes: along it the ranks grow.

What the instructions promise is a parameter.  `safe hs i` says when `i` may
run with `hs` held, and `net i hs` what is held once it and all the code it
has put in front are done.
-/
import JetPeer.Runs
import Mathlib.Logic.Relation
import Mathlib.Order.Basic

namespace Locks

open Runs

/-- A statement of a thread. -/
inductive Stmt (μ ι : Type*) where
  | lock (m : μ)
  | unlock (m : μ)
  | run (i : ι)

/-- The instruction a statement runs. -/
def Stmt.instr {μ ι : Type*} : Stmt μ ι → Option ι
  | .run i => some i
  | _ => none

/-- `std::lock_guard` over a piece of code. -/
def Stmt.scope {μ ι : Type*} (m : μ) (body : List (Stmt μ ι)) : List (Stmt μ ι) :=
  .lock m :: body ++ [.unlock m]

structure Thread (μ ι : Type*) where
  held : List μ := []
  code : List (Stmt μ ι)

/-- A shared state and the threads over it. -/
structure System (σ μ ι : Type*) where
  shared : σ
  threads : List (Thread μ ι)

/-- What the instructions do, and which mutexes their holder may take again. -/
structure Program (σ μ ι α : Type*) where
  recursive : μ → Bool
  run : σ → ι → α → Option (σ × List (Stmt μ ι))

variable {σ μ ι α : Type*}

namespace System

/-- What thread `j` holds. -/
def heldBy (s : System σ μ ι) (j : ℕ) : List μ := ((s.threads[j]?).map Thread.held).getD []

/-- The mutex thread `j` is about to take. -/
def wants (s : System σ μ ι) (j : ℕ) : Option μ :=
  (s.threads[j]?).bind fun th =>
    match th.code with
    | .lock m :: _ => some m
    | _ => none

theorem heldBy_of_getElem? {s : System σ μ ι} {j : ℕ} {th : Thread μ ι}
    (h : s.threads[j]? = some th) : s.heldBy j = th.held := by
  simp [heldBy, h]

/-- What a thread holds is held by a thread that is there. -/
theorem exists_of_mem_heldBy {s : System σ μ ι} {j : ℕ} {m : μ} (h : m ∈ s.heldBy j) :
    ∃ th, s.threads[j]? = some th ∧ m ∈ th.held := by
  rcases hth : s.threads[j]? with - | th
  · simp [heldBy, hth] at h
  · exact ⟨th, rfl, by simpa [heldBy, hth] using h⟩

theorem exists_of_wants {s : System σ μ ι} {j : ℕ} {m : μ} (h : s.wants j = some m) :
    ∃ th c, s.threads[j]? = some th ∧ th.code = .lock m :: c := by
  obtain ⟨th, hth, hcode⟩ := Option.bind_eq_some_iff.mp h
  split at hcode
  · next m' c hc =>
      obtain rfl := Option.some.inj hcode
      exact ⟨th, c, hth, hc⟩
  · cases hcode

/-- One thread goes on; the others stay where they are. -/
def setThread (s : System σ μ ι) (shared : σ) (tid : ℕ) (th : Thread μ ι) : System σ μ ι :=
  ⟨shared, s.threads.set tid th⟩

theorem heldBy_setThread {s : System σ μ ι} {shared : σ} {tid j : ℕ} {th th' : Thread μ ι}
    (h : s.threads[tid]? = some th) :
    (s.setThread shared tid th').heldBy j = if j = tid then th'.held else s.heldBy j := by
  by_cases hj : j = tid
  · subst hj
    have hlt : j < s.threads.length := (List.getElem?_eq_some_iff.mp h).1
    simp [heldBy, setThread, hlt]
  · rw [if_neg hj]
    simp [heldBy, setThread, List.getElem?_set_ne (Ne.symm hj)]

end System

section Steps

variable [DecidableEq μ] (P : Program σ μ ι α)

/-- `m` is free for thread `j`: nobody holds it, or only `j` does and may take
it again. -/
def System.Free (s : System σ μ ι) (j : ℕ) (m : μ) : Prop :=
  ∀ k < s.threads.length, m ∈ s.heldBy k → k = j ∧ P.recursive m = true

instance (s : System σ μ ι) (j : ℕ) (m : μ) : Decidable (s.Free P j m) :=
  inferInstanceAs (Decidable (∀ k < s.threads.length, m ∈ s.heldBy k →
    k = j ∧ P.recursive m = true))

/-- The threads take turns. -/
def lockMachine : Machine (System σ μ ι) (ℕ × α) where
  step s a := (s.threads[a.1]?).bind fun th =>
    match th.code with
    | [] => none
    | .lock m :: c =>
        if s.Free P a.1 m then some (s.setThread s.shared a.1 ⟨m :: th.held, c⟩) else none
    | .unlock m :: c => some (s.setThread s.shared a.1 ⟨th.held.erase m, c⟩)
    | .run i :: c => (P.run s.shared i a.2).map fun r => s.setThread r.1 a.1 ⟨th.held, r.2 ++ c⟩

/-- What a turn is. -/
theorem step_cases {s t : System σ μ ι} {a : ℕ × α} (h : (lockMachine P).step s a = some t) :
    ∃ th, s.threads[a.1]? = some th ∧
      ((∃ m c, th.code = .lock m :: c ∧ s.Free P a.1 m ∧
          t = s.setThread s.shared a.1 ⟨m :: th.held, c⟩) ∨
        (∃ m c, th.code = .unlock m :: c ∧
          t = s.setThread s.shared a.1 ⟨th.held.erase m, c⟩) ∨
        ∃ i c shared ops, th.code = .run i :: c ∧ P.run s.shared i a.2 = some (shared, ops) ∧
          t = s.setThread shared a.1 ⟨th.held, ops ++ c⟩) := by
  obtain ⟨th, hth, h⟩ := Option.bind_eq_some_iff.mp h
  refine ⟨th, hth, ?_⟩
  split at h
  · cases h
  · next m c hcode =>
      obtain ⟨hfree, ht⟩ := Option.ite_none_right_eq_some.mp h
      exact .inl ⟨m, c, hcode, hfree, (Option.some.inj ht).symm⟩
  · next m c hcode => exact .inr (.inl ⟨m, c, hcode, (Option.some.inj h).symm⟩)
  · next i c hcode =>
      obtain ⟨⟨shared, ops⟩, hrun, rfl⟩ := Option.map_eq_some_iff.mp h
      exact .inr (.inr ⟨i, c, shared, ops, hcode, hrun, rfl⟩)

/-! ### Waiting -/

/-- Thread `j` is at a `lock` of a mutex that thread `k` holds; itself it waits
for only if it may not take the mutex again. -/
def System.WaitsFor (s : System σ μ ι) (j k : ℕ) : Prop :=
  ∃ m ∈ s.wants j, m ∈ s.heldBy k ∧ (k = j → P.recursive m = false)

instance (s : System σ μ ι) (j k : ℕ) : Decidable (s.WaitsFor P j k) :=
  inferInstanceAs (Decidable (∃ m ∈ s.wants j, m ∈ s.heldBy k ∧
    (k = j → P.recursive m = false)))

/-- Threads wait for each other in a cycle. -/
def System.Deadlocked (s : System σ μ ι) : Prop := ∃ j, Relation.TransGen (s.WaitsFor P) j j

/-! ### Mutual exclusion -/

/-- A mutex has one holder at most. -/
def System.Exclusive (s : System σ μ ι) : Prop :=
  ∀ j k m, m ∈ s.heldBy j → m ∈ s.heldBy k → j = k

variable {P} {s t : System σ μ ι} {a : ℕ × α}

omit [DecidableEq μ] in
/-- Where a thread comes to hold no more than before. -/
theorem System.Exclusive.setThread_of_subset {shared : σ} {tid : ℕ} {th th' : Thread μ ι}
    (h : s.Exclusive) (hth : s.threads[tid]? = some th) (hsub : th'.held ⊆ th.held) :
    (s.setThread shared tid th').Exclusive := by
  have hold : ∀ {j m}, m ∈ (s.setThread shared tid th').heldBy j → m ∈ s.heldBy j := by
    intro j m hm
    rw [System.heldBy_setThread hth] at hm
    split at hm
    · next hj =>
        subst hj
        rw [System.heldBy_of_getElem? hth]
        exact hsub hm
    · exact hm
  exact fun j k m hj hk => h j k m (hold hj) (hold hk)

/-- A turn keeps mutual exclusion. -/
theorem System.Exclusive.step (h : s.Exclusive) (hstep : (lockMachine P).step s a = some t) :
    t.Exclusive := by
  obtain ⟨th, hth, ⟨m, c, hcode, hfree, rfl⟩ | ⟨m, c, hcode, rfl⟩ | ⟨i, c, shared, ops, hcode,
    hrun, rfl⟩⟩ := step_cases P hstep
  · -- the mutex taken was free for the thread that takes it
    have hnew : ∀ {j m'}, m' ∈ (s.setThread s.shared a.1 ⟨m :: th.held, c⟩).heldBy j →
        m' ∈ s.heldBy j ∨ (j = a.1 ∧ m' = m) := by
      intro j m' hm'
      rw [System.heldBy_setThread hth] at hm'
      split at hm'
      · next hj =>
          rcases List.mem_cons.mp hm' with rfl | hm'
          · exact .inr ⟨hj, rfl⟩
          · rw [hj, System.heldBy_of_getElem? hth]
            exact .inl hm'
      · exact .inl hm'
    have hholder : ∀ {j}, m ∈ s.heldBy j → j = a.1 := by
      intro j hj
      obtain ⟨th', hth', -⟩ := System.exists_of_mem_heldBy hj
      exact (hfree j (List.getElem?_eq_some_iff.mp hth').1 hj).1
    intro j k m' hj hk
    rcases hnew hj with hold | ⟨rfl, rfl⟩
    · rcases hnew hk with hold' | ⟨rfl, rfl⟩
      · exact h j k m' hold hold'
      · exact hholder hold
    · rcases hnew hk with hold' | ⟨rfl, -⟩
      · exact (hholder hold').symm
      · rfl
  · exact h.setThread_of_subset hth fun m' hm' => List.mem_of_mem_erase hm'
  · exact h.setThread_of_subset hth fun m' hm' => hm'

end Steps

/-! ### Taking mutexes upwards -/

section Order

variable [DecidableEq μ] {β : Type*} [Preorder β] (P : Program σ μ ι α) (rank : μ → β)

/-- `m` comes after everything held, or is held and may be taken again. -/
def Above (held : List μ) (m : μ) : Prop :=
  ∀ h ∈ held, rank h < rank m ∨ (h = m ∧ P.recursive m = true)

instance [DecidableLT β] (hs : List μ) (m : μ) : Decidable (Above P rank hs m) :=
  inferInstanceAs (Decidable (∀ h ∈ hs, rank h < rank m ∨ (h = m ∧ P.recursive m = true)))

/-- The acquisitions of a thread, the newest first, went upwards. -/
def Ascending (held : List μ) : Prop :=
  held.Pairwise fun m h => rank h < rank m ∨ (h = m ∧ P.recursive m = true)

variable (safe : List μ → ι → Prop) (net : ι → List μ → List μ)

/-- The code takes mutexes upwards, and runs its instructions where they are
safe. -/
def Upward : List μ → List (Stmt μ ι) → Prop
  | _, [] => True
  | hs, .lock m :: c => Above P rank hs m ∧ Upward (m :: hs) c
  | hs, .unlock m :: c => Upward (hs.erase m) c
  | hs, .run i :: c => safe hs i ∧ Upward (net i hs) c

/-- What the code leaves held. -/
def heldAfter : List μ → List (Stmt μ ι) → List μ
  | hs, [] => hs
  | hs, .lock m :: c => heldAfter (m :: hs) c
  | hs, .unlock m :: c => heldAfter (hs.erase m) c
  | hs, .run i :: c => heldAfter (net i hs) c

variable {P rank safe net} {hs : List μ} {c c' : List (Stmt μ ι)} {m : μ}

omit [DecidableEq μ] in
@[simp] theorem above_nil : Above P rank [] m := fun _ h => absurd h List.not_mem_nil

@[simp] theorem upward_nil : Upward P rank safe net hs [] := trivial

@[simp] theorem upward_lock : Upward P rank safe net hs (.lock m :: c) ↔
    Above P rank hs m ∧ Upward P rank safe net (m :: hs) c := Iff.rfl

@[simp] theorem upward_unlock : Upward P rank safe net hs (.unlock m :: c) ↔
    Upward P rank safe net (hs.erase m) c := Iff.rfl

@[simp] theorem upward_run {i : ι} : Upward P rank safe net hs (.run i :: c) ↔
    safe hs i ∧ Upward P rank safe net (net i hs) c := Iff.rfl

@[simp] theorem heldAfter_nil : heldAfter net hs ([] : List (Stmt μ ι)) = hs := rfl

@[simp] theorem heldAfter_lock :
    heldAfter net hs (.lock m :: c) = heldAfter net (m :: hs) c := rfl

@[simp] theorem heldAfter_unlock :
    heldAfter net hs (.unlock m :: c) = heldAfter net (hs.erase m) c := rfl

@[simp] theorem heldAfter_run {i : ι} :
    heldAfter net hs (.run i :: c) = heldAfter net (net i hs) c := rfl

@[simp] theorem heldAfter_append :
    heldAfter net hs (c ++ c') = heldAfter net (heldAfter net hs c) c' := by
  induction c generalizing hs with
  | nil => rfl
  | cons x c ih => cases x <;> exact ih

/-- Code is judged piece by piece. -/
@[simp] theorem upward_append : Upward P rank safe net hs (c ++ c') ↔
    Upward P rank safe net hs c ∧ Upward P rank safe net (heldAfter net hs c) c' := by
  induction c generalizing hs with
  | nil => simp
  | cons x c ih =>
      cases x with
      | lock m => simp only [List.cons_append, upward_lock, heldAfter_lock, ih, and_assoc]
      | unlock m => simp only [List.cons_append, upward_unlock, heldAfter_unlock, ih]
      | run i => simp only [List.cons_append, upward_run, heldAfter_run, ih, and_assoc]

/-- A scope leaves held what was held, if its body does. -/
theorem heldAfter_scope (h : heldAfter net (m :: hs) c = m :: hs) :
    heldAfter net hs (Stmt.scope m c) = hs := by
  simp [Stmt.scope, h]

theorem upward_scope (habove : Above P rank hs m) (hbody : Upward P rank safe net (m :: hs) c) :
    Upward P rank safe net hs (Stmt.scope m c) := by
  simp [Stmt.scope, habove, hbody]

/-- A list of pieces, each of which leaves held what was held. -/
theorem heldAfter_flatMap {γ : Type*} {f : γ → List (Stmt μ ι)} :
    ∀ {l : List γ}, (∀ x ∈ l, heldAfter net hs (f x) = hs) → heldAfter net hs (l.flatMap f) = hs
  | [], _ => rfl
  | x :: l, h => by
      rw [List.flatMap_cons, heldAfter_append, h x List.mem_cons_self]
      exact heldAfter_flatMap fun y hy => h y (List.mem_cons_of_mem _ hy)

theorem upward_flatMap {γ : Type*} {f : γ → List (Stmt μ ι)} :
    ∀ {l : List γ}, (∀ x ∈ l, Upward P rank safe net hs (f x) ∧ heldAfter net hs (f x) = hs) →
      Upward P rank safe net hs (l.flatMap f)
  | [], _ => trivial
  | x :: l, h => by
      obtain ⟨hup, hafter⟩ := h x List.mem_cons_self
      rw [List.flatMap_cons, upward_append, hafter]
      exact ⟨hup, upward_flatMap fun y hy => h y (List.mem_cons_of_mem _ hy)⟩

/-! ### The threads -/

variable (P rank safe net)

/-- Every thread has gone upwards and will. -/
structure System.Ordered (s : System σ μ ι) : Prop where
  ascending : ∀ th ∈ s.threads, Ascending P rank th.held
  upward : ∀ th ∈ s.threads, Upward P rank safe net th.held th.code

variable {P rank safe net} {s t : System σ μ ι} {a : ℕ × α}

theorem System.Ordered.setThread {shared : σ} {tid : ℕ} {th : Thread μ ι}
    (h : s.Ordered P rank safe net) (hasc : Ascending P rank th.held)
    (hup : Upward P rank safe net th.held th.code) :
    (s.setThread shared tid th).Ordered P rank safe net := by
  constructor
  · intro th' hth'
    rcases List.mem_or_eq_of_mem_set hth' with hold | rfl
    · exact h.ascending th' hold
    · exact hasc
  · intro th' hth'
    rcases List.mem_or_eq_of_mem_set hth' with hold | rfl
    · exact h.upward th' hold
    · exact hup

/-- A turn keeps the order, if the code an instruction puts in front does. -/
theorem System.Ordered.step (h : s.Ordered P rank safe net)
    (hstep : (lockMachine P).step s a = some t)
    (hrun : ∀ th i c shared ops, s.threads[a.1]? = some th → th.code = .run i :: c →
      P.run s.shared i a.2 = some (shared, ops) → safe th.held i →
        Upward P rank safe net th.held ops ∧ heldAfter net th.held ops = net i th.held) :
    t.Ordered P rank safe net := by
  obtain ⟨th, hth, hturn⟩ := step_cases P hstep
  have hmem : th ∈ s.threads := List.mem_of_getElem? hth
  have hasc := h.ascending th hmem
  have hup := h.upward th hmem
  rcases hturn with ⟨m, c, hcode, -, rfl⟩ | ⟨m, c, hcode, rfl⟩ | ⟨i, c, shared, ops, hcode, hops,
    rfl⟩
  · rw [hcode] at hup
    exact h.setThread (List.pairwise_cons.mpr ⟨hup.1, hasc⟩) hup.2
  · rw [hcode] at hup
    exact h.setThread (hasc.sublist List.erase_sublist) hup
  · rw [hcode] at hup
    -- the new code leaves held what the rest of the thread was judged with
    obtain ⟨hnew, hafter⟩ := hrun th i c shared ops hth hcode hops hup.1
    refine h.setThread hasc (upward_append.mpr ⟨hnew, ?_⟩)
    rw [hafter]
    exact hup.2

/-- Where a thread waits for another, it wants a mutex above all it holds. -/
theorem System.Ordered.above_of_wants (h : s.Ordered P rank safe net) {j : ℕ}
    (hm : s.wants j = some m) : Above P rank (s.heldBy j) m := by
  obtain ⟨th, c, hth, hcode⟩ := System.exists_of_wants hm
  have hup := h.upward th (List.mem_of_getElem? hth)
  rw [hcode] at hup
  rw [System.heldBy_of_getElem? hth]
  exact hup.1

/-- Upward a chain of waiting threads the ranks grow: whoever stands at its end
holds a mutex whose rank is not below that of the one wanted at its front. -/
theorem System.Ordered.rank_le_of_chain (h : s.Ordered P rank safe net) (hex : s.Exclusive)
    {j k : ℕ} (hchain : Relation.TransGen (s.WaitsFor P) j k) :
    ∃ m ∈ s.wants j, ∃ m' ∈ s.heldBy k, rank m ≤ rank m' ∧
      (m = m' → k = j → P.recursive m = false) := by
  induction hchain with
  | single hwait =>
      obtain ⟨m, hm, hheld, hself⟩ := hwait
      exact ⟨m, hm, m, hheld, le_rfl, fun _ => hself⟩
  | tail hrest hwait ih =>
      rename_i k l
      obtain ⟨m, hm, m', hm', hle, -⟩ := ih
      obtain ⟨m'', hwant, hheld, hself⟩ := hwait
      -- thread `k` holds `m'` and wants `m''`
      rcases h.above_of_wants hwant m' hm' with hlt | ⟨rfl, hrec⟩
      · refine ⟨m, hm, m'', hheld, (hle.trans_lt hlt).le, ?_⟩
        rintro rfl -
        exact absurd (hle.trans_lt hlt) (lt_irrefl _)
      · -- it may take `m'` again, and nobody else holds it
        obtain rfl := hex k l m' hm' hheld
        rw [hself rfl] at hrec
        cases hrec

/-- **Threads that take mutexes upwards do not deadlock.** -/
theorem System.Ordered.not_deadlocked (h : s.Ordered P rank safe net) (hex : s.Exclusive) :
    ¬ s.Deadlocked P := by
  rintro ⟨j, hchain⟩
  -- thread `j` stands at both ends: it wants `m` and holds `m'`, which is no lower
  obtain ⟨m, hm, m', hm', hle, hself⟩ := h.rank_le_of_chain hex hchain
  rcases h.above_of_wants hm m' hm' with hlt | ⟨rfl, hrec⟩
  · exact absurd (hle.trans_lt hlt) (lt_irrefl _)
  · rw [hself rfl rfl] at hrec
    cases hrec

/-- **The rule of locks.**  If the code every instruction puts in front goes
upwards under the guard, no guarded run comes to a deadlock. -/
theorem run_not_deadlocked {C : System σ μ ι → ℕ × α → Prop} {as : List (ℕ × α)}
    (h : (lockMachine P).Run C s as t) (hord : s.Ordered P rank safe net) (hex : s.Exclusive)
    (hrun : ∀ (s : System σ μ ι) a th i c shared ops, C s a → s.threads[a.1]? = some th →
      th.code = .run i :: c → P.run s.shared i a.2 = some (shared, ops) → safe th.held i →
        Upward P rank safe net th.held ops ∧ heldAfter net th.held ops = net i th.held) :
    ¬ t.Deadlocked P ∧ ∀ th ∈ t.threads, Ascending P rank th.held := by
  obtain ⟨hord', hex'⟩ := h.invariant (I := fun t => t.Ordered P rank safe net ∧ t.Exclusive)
    ⟨hord, hex⟩ fun s a u hs hC hstep =>
      ⟨hs.1.step hstep fun th i c shared ops => hrun s a th i c shared ops hC, hs.2.step hstep⟩
  exact ⟨hord'.not_deadlocked hex', hord'.ascending⟩

end Order

end Locks
