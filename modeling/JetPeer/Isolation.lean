/-
JetPeer/Isolation.lean

What one peer can do to another.

The log says which event happened to which peer, so what belongs to a peer
`A` can be read off the events of `A` alone: `tablesOf` and `openOf` replay
them and pass over all others.  `Separate` says that this is what there is:
nothing the other peers did has left a trace in the tables of `A` or among its
open requests, and every result callback of `A` about to be invoked was taken
out by `A`.

The table of open requests belongs to the process, and nothing in the code
keeps the peers apart.  `Isolated` is the condition under which they are: no
event takes away an entry of another peer.
-/
import JetPeer.Process

namespace JetPeer

open Runs

/-! ### What a peer did itself -/

/-- An event of `A` as far as it was caused by `A`. -/
def ownChange (A : ℕ) : Event → Tables → Tables
  | .answered cause item _ result, t => if cause = A then t.rollBack result item else t
  | e, t => e.onTables t

/-- The tables of `A`, from what happened to `A`. -/
def tablesOf (A : ℕ) : List (ℕ × Event) → Tables
  | [] => {}
  | (p, e) :: log => if p = A then ownChange A e (tablesOf A log) else tablesOf A log

/-- An event of `A` as it bears on the request of `A` open under an id. -/
def ownRequest (id : UInt32) : Event → Option ℕ → Option ℕ
  | .opened i cl, o => if i = id then some cl.serial else o
  | .completed i, o => if i = id then none else o
  | .cancelled, _ => none
  | _, o => o

/-- The request of `A` open under an id, from what happened to `A`. -/
def openOf (A : ℕ) (id : UInt32) : List (ℕ × Event) → Option ℕ
  | [] => none
  | (p, e) :: log => if p = A then ownRequest id e (openOf A id log) else openOf A id log

/-- The request of `A` open under an id. -/
def openBy (sh : Shared) (A : ℕ) (id : UInt32) : Option ℕ :=
  ((sh.requests.callback id).filter fun cl => cl.peer = A).map Closure.serial

/-- A handler about to invoke a result callback was set off by the peer the
callback belongs to. -/
def OwnCause : Frame → Prop
  | .invoke cause cl _ => cause = cl.peer
  | _ => True

/-- Everything a peer has is what it did. -/
structure Separate (sh : Shared) : Prop where
  tables : ∀ A, (sh.peers A).tables = tablesOf A sh.log
  requests : ∀ A id, openBy sh A id = openOf A id sh.log

/-- No event takes away an entry of another peer, and no id is in use twice. -/
def Isolated (_ : Process) (sh : Shared) : ℕ × Event → Prop
  | (p, .completed id) => ∀ cl ∈ sh.requests.callback id, cl.peer = p
  | (p, .cancelled) => ∀ id ∈ sh.requests.openRequestCbs.keys, ∀ cl ∈ sh.requests.callback id,
      cl.peer = p
  | (_, .opened id _) => sh.requests.callback id = none
  | (_, .destroyed id) => sh.requests.callback id = none
  | _ => True

instance (s : Process) (sh : Shared) : ∀ pe, Decidable (Isolated s sh pe)
  | (p, .completed id) => inferInstanceAs (Decidable (∀ cl ∈ sh.requests.callback id, cl.peer = p))
  | (p, .cancelled) => List.decidableBAll
      (fun id => ∀ cl ∈ sh.requests.callback id, cl.peer = p) sh.requests.openRequestCbs.keys
  | (_, .opened id _) | (_, .destroyed id) =>
      inferInstanceAs (Decidable (sh.requests.callback id = none))
  | (_, .registered ..) | (_, .removed _) | (_, .answered ..) | (_, .cleared _) | (_, .issued)
  | (_, .installed ..) | (_, .fulfilled ..) | (_, .connected) | (_, .disconnected)
  | (_, .arrived _) | (_, .handled _) | (_, .left) | (_, .called ..) | (_, .sent _) =>
      .isTrue trivial

/-! ### One event -/

section

variable {sh : Shared} {A p : ℕ} {e : Event} {id : UInt32}

theorem openBy_eq_some {n : ℕ} : openBy sh A id = some n ↔
    ∃ cl, sh.requests.callback id = some cl ∧ cl.peer = A ∧ cl.serial = n := by
  simp [openBy, Option.filter_eq_some_iff, and_assoc]

theorem openBy_eq_none_of_callback (h : sh.requests.callback id = none) :
    openBy sh A id = none := by
  simp [openBy, h]

/-- An entry of another peer is none of `A`. -/
theorem openBy_eq_none_of_peer (h : ∀ cl ∈ sh.requests.callback id, cl.peer = p) (hA : p ≠ A) :
    openBy sh A id = none := by
  rcases hcl : sh.requests.callback id with - | cl
  · exact openBy_eq_none_of_callback hcl
  · have := h cl hcl
    simp [openBy, hcl, this, hA]

theorem openBy_congr {sh' : Shared} (h : sh'.requests.callback id = sh.requests.callback id) :
    openBy sh' A id = openBy sh A id := by
  rw [openBy, openBy, h]

/-- What an event does to the tables of `A`. -/
theorem tables_apply_own (h : (sh.peers A).tables = tablesOf A sh.log)
    (hcause : ∀ cause item n result, e = .answered cause item n result → cause = p) :
    ((sh.apply (p, e)).peers A).tables = tablesOf A ((p, e) :: sh.log) := by
  rw [Shared.tables_apply, tablesOf]
  by_cases hp : A = p
  · subst hp
    rw [if_pos rfl, if_pos rfl, h]
    cases e with
    | answered cause item n result => exact (if_pos (hcause _ _ _ _ rfl)).symm
    | _ => rfl
  · rw [if_neg hp, if_neg (Ne.symm hp), h]

/-- The event is none that `openOf` looks at. -/
theorem openBy_apply_of_same (h : openBy sh A id = openOf A id sh.log)
    (hcallback : (sh.apply (p, e)).requests.callback id = sh.requests.callback id)
    (hlog : ∀ o, ownRequest id e o = o) :
    openBy (sh.apply (p, e)) A id = openOf A id ((p, e) :: sh.log) := by
  rw [openBy_congr hcallback, h, openOf, hlog, ite_self]

/-- The event takes the entry of `p` away; of anybody else there was none. -/
theorem openBy_apply_of_taken (h : openBy sh A id = openOf A id sh.log)
    (hcallback : (sh.apply (p, e)).requests.callback id = none)
    (hown : ∀ cl ∈ sh.requests.callback id, cl.peer = p)
    (hlog : ∀ o, ownRequest id e o = none) :
    openBy (sh.apply (p, e)) A id = openOf A id ((p, e) :: sh.log) := by
  rw [openBy_eq_none_of_callback hcallback]
  by_cases hp : p = A
  · rw [openOf, if_pos hp, hlog]
  · rw [openOf, if_neg hp, ← h]
    exact (openBy_eq_none_of_peer hown hp).symm

theorem callback_mem_keys {cl : Closure} (h : sh.requests.callback id = some cl) :
    id ∈ sh.requests.openRequestCbs.keys := by
  obtain ⟨r, hr, -⟩ := Option.bind_eq_some_iff.mp h
  exact AList.mem_keys.mp (Maps.mem_of_lookup hr)

theorem openBy_opened {i : UInt32} {cl : Closure} (h : openBy sh A id = openOf A id sh.log)
    (hi : i = sh.requests.sid + 1) (hcl : cl.peer = p) (hfree : sh.requests.callback i = none) :
    openBy (sh.apply (p, .opened i cl)) A id = openOf A id ((p, .opened i cl) :: sh.log) := by
  by_cases hid : i = id
  · subst hid
    have hnew : (sh.apply (p, .opened i cl)).requests.callback i = some cl := by
      rw [hi]
      exact RequestTable.callback_enter_self
    by_cases hp : p = A
    · subst hp
      rw [openOf, if_pos rfl, openBy_eq_some.mpr ⟨cl, hnew, hcl, rfl⟩]
      exact (if_pos rfl).symm
    · rw [openOf, if_neg hp, ← h, openBy_eq_none_of_callback hfree]
      refine openBy_eq_none_of_peer (fun cl' hcl' => ?_) hp
      obtain rfl : cl = cl' := Option.some.inj (hnew.symm.trans hcl')
      exact hcl
  · refine openBy_apply_of_same h ?_ ?_
    · refine RequestTable.callback_enter_of_ne ?_
      rw [← hi]
      exact Ne.symm hid
    · exact fun _ => if_neg hid

/-- What an event does to the open requests of `A`. -/
theorem openBy_apply {s : Process} (h : openBy sh A id = openOf A id sh.log)
    (hopened : ∀ i cl, e = .opened i cl → i = sh.requests.sid + 1 ∧ cl.peer = p)
    (hG : Isolated s sh (p, e)) :
    openBy (sh.apply (p, e)) A id = openOf A id ((p, e) :: sh.log) := by
  cases e with
  | opened i cl =>
      obtain ⟨hi, hcl⟩ := hopened i cl rfl
      exact openBy_opened h hi hcl hG
  | installed i n =>
      refine openBy_apply_of_same h ?_ fun _ => rfl
      exact RequestTable.callback_installNotifier n
  | completed i =>
      by_cases hid : i = id
      · subst hid
        refine openBy_apply_of_taken h ?_ hG fun _ => if_pos rfl
        exact RequestTable.callback_erase_self
      · refine openBy_apply_of_same h ?_ fun _ => if_neg hid
        exact RequestTable.callback_erase_of_ne (Ne.symm hid)
  | destroyed i =>
      have hnone : sh.requests.callback i = none := hG
      refine openBy_apply_of_same h ?_ fun _ => rfl
      by_cases hid : id = i
      · subst hid
        rw [hnone]
        exact RequestTable.callback_erase_self
      · exact RequestTable.callback_erase_of_ne hid
  | cancelled =>
      refine openBy_apply_of_taken h RequestTable.callback_clear (fun cl hcl => ?_)
        fun _ => rfl
      exact hG id (callback_mem_keys hcl) cl hcl
  | _ => exact openBy_apply_of_same h rfl fun _ => rfl

end

/-! ### Main result -/

theorem Separate.apply {s : Process} {stack : List Frame} {sh : Shared} {pe : ℕ × Event}
    (h : Separate sh) (hown : ∀ f ∈ stack, OwnCause f) (hproper : Proper stack sh pe)
    (hG : Isolated s sh pe) : Separate (sh.apply pe) where
  tables A := by
    obtain ⟨p, e⟩ := pe
    refine tables_apply_own (h.tables A) ?_
    rintro cause item m result rfl
    -- a handler that is about to roll back was set off by its own peer
    rcases hproper with ⟨cl, hmem, -, rfl, -⟩ | ⟨rfl, -⟩
    · exact hown _ hmem
    · rfl
  requests A id := by
    obtain ⟨p, e⟩ := pe
    refine openBy_apply (h.requests A id) ?_ hG
    rintro i cl rfl
    exact ⟨hproper.1, hproper.2.1⟩

end JetPeer
