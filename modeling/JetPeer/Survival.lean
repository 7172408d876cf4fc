/-
JetPeer/Survival.lean

What is set up on a connection, and the teardown of the one before.

`stop()` calls the user in the middle: the fetch callbacks learn of the loss
before the registries and the open requests are cleared.  A callback that
resumes and registers anew does so on the new connection, and the rest of
`stop()` clears it away.

What ought to be there is read off the log (`itemStands`, `requestStands`): it
begins empty with each successful `start()`, and an item or a request leaves
it by an explicit removal, the error to its own add, its own response, or the
loss of the connection, and by nothing else.  `Survives` says that all of it
is there.

The condition `SetUpAfterStop` asks that nothing is set up on a connected peer
while the rest of a `stop()` is still to come.  With it the invariant of the
frames (`NothingStands`) is plain: whatever a pending frame is going to clear,
nothing that ought to be there is among it.
-/
import JetPeer.Isolation

namespace JetPeer

open Runs

/-! ### What ought to be there -/

def connectedIn (p : ℕ) : List (ℕ × Event) → Bool
  | [] => false
  | (q, e) :: log => if q = p then e.onConnected (connectedIn p log) else connectedIn p log

/-- The registration of an item that ought to be there, by its number. -/
def Event.onItem (connected : Bool) (i : Item) : Event → Option ℕ → Option ℕ
  | .connected, _ => none
  | .disconnected, _ => none
  | .registered r n _, o => if r.item = i then (if connected then some n else none) else o
  | .removed j, o => if j = i then none else o
  | .answered _ j n result, o => if j = i ∧ isError result ∧ o = some n then none else o
  | _, o => o

/-- The request that ought to be open under an id, by its number. -/
def Event.onOpen (connected : Bool) (id : UInt32) : Event → Option ℕ → Option ℕ
  | .connected, _ => none
  | .disconnected, _ => none
  | .opened i cl, o => if i = id then (if connected then some cl.serial else none) else o
  | .completed i, o => if i = id then none else o
  | _, o => o

def itemStands (p : ℕ) (i : Item) : List (ℕ × Event) → Option ℕ
  | [] => none
  | (q, e) :: log =>
      if q = p then e.onItem (connectedIn p log) i (itemStands p i log) else itemStands p i log

def requestStands (p : ℕ) (id : UInt32) : List (ℕ × Event) → Option ℕ
  | [] => none
  | (q, e) :: log =>
      if q = p then e.onOpen (connectedIn p log) id (requestStands p id log)
      else requestStands p id log

/-- Everything that ought to be there is. -/
structure Survives (sh : Shared) : Prop where
  connected : ∀ p, (sh.peers p).connected = connectedIn p sh.log
  items : ∀ p i n, itemStands p i sh.log = some n → (sh.peers p).tables.Has i
  requests : ∀ p id n, requestStands p id sh.log = some n → openBy sh p id = some n

/-! ### The condition -/

/-- The frame is going to clear this registry of `p`. -/
def Frame.Clears (p : ℕ) (part : Part) : Frame → Prop
  | .clear q part' => q = p ∧ part' = part
  | _ => False

/-- The frame is going to cancel the requests of `p`. -/
def Frame.ClearsRequests (p : ℕ) : Frame → Prop
  | .clearRequests q => q = p
  | _ => False

instance (p : ℕ) (part : Part) (f : Frame) : Decidable (Frame.Clears p part f) := by
  cases f <;> dsimp only [Frame.Clears] <;> infer_instance

instance (p : ℕ) (f : Frame) : Decidable (Frame.ClearsRequests p f) := by
  cases f <;> dsimp only [Frame.ClearsRequests] <;> infer_instance

/-- On a connected peer nothing is set up while a `stop()` has yet to clear
it; the error to an add arrives before the item is registered anew; and peers
are isolated. -/
def SetUpAfterStop (s : Process) (sh : Shared) : ℕ × Event → Prop
  | (p, .registered r _ _) =>
      (sh.peers p).connected = true → ¬ s.Pending (Frame.Clears p r.item.part)
  | (p, .opened id cl) => Isolated s sh (p, .opened id cl) ∧
      ((sh.peers p).connected = true → ¬ s.Pending (Frame.ClearsRequests p))
  | (p, .answered _ i n result) => isError result = true → ∀ m ∈ itemStands p i sh.log, m = n
  | pe => Isolated s sh pe

instance (s : Process) (sh : Shared) : ∀ pe, Decidable (SetUpAfterStop s sh pe)
  | (p, .registered r _ _) => inferInstanceAs (Decidable
      ((sh.peers p).connected = true → ¬ s.Pending (Frame.Clears p r.item.part)))
  | (p, .opened id cl) => inferInstanceAs (Decidable (Isolated s sh (p, .opened id cl) ∧
      ((sh.peers p).connected = true → ¬ s.Pending (Frame.ClearsRequests p))))
  | (p, .answered _ i n result) => inferInstanceAs (Decidable
      (isError result = true → ∀ m ∈ itemStands p i sh.log, m = n))
  | (p, .completed id) => inferInstanceAs (Decidable (Isolated s sh (p, .completed id)))
  | (p, .cancelled) => inferInstanceAs (Decidable (Isolated s sh (p, .cancelled)))
  | (p, .destroyed id) => inferInstanceAs (Decidable (Isolated s sh (p, .destroyed id)))
  | (_, .removed _) | (_, .cleared _) | (_, .issued) | (_, .installed ..) | (_, .fulfilled ..)
  | (_, .connected) | (_, .disconnected) | (_, .arrived _) | (_, .handled _) | (_, .left)
  | (_, .called ..) | (_, .sent _) => .isTrue trivial

/-- Nothing that ought to be there is what the frame is going to clear. -/
def NothingStands (sh : Shared) : Frame → Prop
  | .clear p part => ∀ i, i.part = part → itemStands p i sh.log = none
  | .clearRequests p => ∀ id, requestStands p id sh.log = none
  | _ => True

/-! ### Items -/

section

variable {s : Process} {stack : List Frame} {sh : Shared} {p q : ℕ} {e : Event}

theorem connected_apply_in (h : ∀ p, (sh.peers p).connected = connectedIn p sh.log) (q : ℕ) :
    ((sh.apply (p, e)).peers q).connected = connectedIn q (sh.apply (p, e)).log := by
  rw [Shared.connected_apply, Shared.log_apply, connectedIn, h q]
  by_cases hq : q = p
  · rw [if_pos hq, if_pos hq.symm]
  · rw [if_neg hq, if_neg (Ne.symm hq)]

/-- An event of another peer. -/
theorem itemStands_of_ne (h : p ≠ q) (i : Item) :
    itemStands q i (sh.apply (p, e)).log = itemStands q i sh.log := if_neg h

theorem requestStands_of_ne (h : p ≠ q) (id : UInt32) :
    requestStands q id (sh.apply (p, e)).log = requestStands q id sh.log := if_neg h

theorem itemStands_self (i : Item) : itemStands p i (sh.apply (p, e)).log =
    e.onItem (connectedIn p sh.log) i (itemStands p i sh.log) := if_pos rfl

theorem requestStands_self (id : UInt32) : requestStands p id (sh.apply (p, e)).log =
    e.onOpen (connectedIn p sh.log) id (requestStands p id sh.log) := if_pos rfl

/-- An item that stands after an event of its peer is still registered. -/
theorem has_apply {i : Item} {n : ℕ} (h : ∀ i n, itemStands p i sh.log = some n →
      (sh.peers p).tables.Has i)
    (hclear : ∀ part, e = .cleared part → ∀ i, i.part = part → itemStands p i sh.log = none)
    (hG : SetUpAfterStop s sh (p, e))
    (hstands : e.onItem (connectedIn p sh.log) i (itemStands p i sh.log) = some n) :
    (e.onTables (sh.peers p).tables).Has i := by
  cases e with
  | registered r m params =>
      refine Tables.has_add.mpr ?_
      by_cases hi : r.item = i
      · exact .inl hi.symm
      · refine .inr (h i n ?_)
        rwa [Event.onItem, if_neg hi] at hstands
  | removed j =>
      by_cases hj : j = i
      · rw [Event.onItem, if_pos hj] at hstands
        cases hstands
      · rw [Event.onItem, if_neg hj] at hstands
        exact Tables.has_discard.mpr ⟨Ne.symm hj, h i n hstands⟩
  | answered cause j m result =>
      show (Tables.rollBack result j _).Has i
      rw [Tables.rollBack_eq]
      by_cases herr : isError result = true
      · rw [if_pos herr]
        by_cases hj : j = i
        · -- the error is that of the registration that stands, if one does
          subst hj
          exfalso
          rcases ho : itemStands p j sh.log with - | m'
          · simp [Event.onItem, ho] at hstands
          · obtain rfl := hG herr m' ho
            simp [Event.onItem, ho, herr] at hstands
        · rw [Event.onItem, if_neg fun hc => hj hc.1] at hstands
          exact Tables.has_discard.mpr ⟨Ne.symm hj, h i n hstands⟩
      · rw [Event.onItem, if_neg fun hc => herr hc.2.1] at hstands
        rw [if_neg herr]
        exact h i n hstands
  | cleared part =>
      refine Tables.has_clear.mpr ⟨fun hpart => ?_, h i n hstands⟩
      rw [Event.onItem, hclear part rfl i hpart] at hstands
      · cases hstands
      all_goals simp
  | connected => cases hstands
  | disconnected => cases hstands
  | _ => exact h i n hstands

/-- Where nothing stood, something stands only after a registration on a
connected peer. -/
theorem onItem_none {c : Bool} {i : Item}
    (h : ∀ r n params, e = .registered r n params → r.item = i → c = false) :
    e.onItem c i none = none := by
  cases e with
  | registered r n params =>
      by_cases hi : r.item = i
      · simp [Event.onItem, hi, h r n params rfl hi]
      · exact if_neg hi
  | removed j => exact ite_self _
  | answered cause j n result => exact ite_self _
  | _ => rfl

theorem onOpen_none {c : Bool} {id : UInt32}
    (h : ∀ i cl, e = .opened i cl → c = false) : e.onOpen c id none = none := by
  cases e with
  | opened i cl => simp [Event.onOpen, h i cl rfl]
  | completed i => exact ite_self _
  | _ => rfl

/-! ### Requests -/

/-- Whoever has an entry is the peer of its closure. -/
theorem openBy_eq_of_own {id : UInt32} {n : ℕ} (h : openBy sh q id = some n)
    (hown : ∀ cl ∈ sh.requests.callback id, cl.peer = p) : p = q := by
  obtain ⟨cl, hcl, rfl, -⟩ := openBy_eq_some.mp h
  exact (hown cl hcl).symm

/-- A request that stands after an event is open. -/
theorem openBy_apply_of_stands {id : UInt32} {n : ℕ}
    (h : ∀ q id n, requestStands q id sh.log = some n → openBy sh q id = some n)
    (hopened : ∀ i cl, e = .opened i cl → i = sh.requests.sid + 1 ∧ cl.peer = p)
    (hclear : e = .cancelled → ∀ id, requestStands p id sh.log = none)
    (hG : Isolated s sh (p, e)) (hstands : requestStands q id (sh.apply (p, e)).log = some n) :
    openBy (sh.apply (p, e)) q id = some n := by
  -- an event that leaves the entry alone, and what ought to be there
  have hsame : (sh.apply (p, e)).requests.callback id = sh.requests.callback id →
      (∀ c o, e.onOpen c id o = some n → o = some n) → openBy (sh.apply (p, e)) q id = some n := by
    intro hcallback hopen
    rw [openBy_congr hcallback]
    by_cases hq : p = q
    · subst hq
      rw [requestStands_self] at hstands
      exact h p id n (hopen _ _ hstands)
    · rw [requestStands_of_ne hq] at hstands
      exact h q id n hstands
  cases e with
  | opened i cl =>
      obtain ⟨hi, hcl⟩ := hopened i cl rfl
      have hfree : sh.requests.callback i = none := hG
      by_cases hid : i = id
      · subst hid
        by_cases hq : p = q
        · subst hq
          rw [requestStands_self] at hstands
          have hnew : (sh.apply (p, .opened i cl)).requests.callback i = some cl := by
            rw [hi]
            exact RequestTable.callback_enter_self
          refine openBy_eq_some.mpr ⟨cl, hnew, hcl, ?_⟩
          rw [Event.onOpen, if_pos rfl] at hstands
          split_ifs at hstands
          exact Option.some.inj hstands
        · rw [requestStands_of_ne hq] at hstands
          have hopen := h q i n hstands
          rw [openBy_eq_none_of_callback hfree] at hopen
          cases hopen
      · refine hsame ?_ fun c o ho => by rwa [Event.onOpen, if_neg hid] at ho
        refine RequestTable.callback_enter_of_ne ?_
        rw [← hi]
        exact Ne.symm hid
  | installed i m => exact hsame (RequestTable.callback_installNotifier m) fun _ _ ho => ho
  | completed i =>
      by_cases hid : i = id
      · subst hid
        exfalso
        by_cases hq : p = q
        · subst hq
          rw [requestStands_self, Event.onOpen, if_pos rfl] at hstands
          cases hstands
        · rw [requestStands_of_ne hq] at hstands
          exact hq (openBy_eq_of_own (h q i n hstands) hG)
      · refine hsame (RequestTable.callback_erase_of_ne (Ne.symm hid)) fun c o ho => ?_
        rwa [Event.onOpen, if_neg hid] at ho
  | destroyed i =>
      have hnone : sh.requests.callback i = none := hG
      refine hsame ?_ fun _ _ ho => ho
      by_cases hid : id = i
      · subst hid
        rw [hnone]
        exact RequestTable.callback_erase_self
      · exact RequestTable.callback_erase_of_ne hid
  | cancelled =>
      exfalso
      by_cases hq : p = q
      · -- the rest of a stop: what ought to be open has not come yet
        subst hq
        rw [requestStands_self] at hstands
        have hnone := hclear rfl id
        rw [hnone] at hstands
        cases hstands
      · rw [requestStands_of_ne hq] at hstands
        have hopen := h q id n hstands
        refine hq (openBy_eq_of_own hopen fun cl hcl => ?_)
        exact hG id (callback_mem_keys hcl) cl hcl
  | connected => exact hsame rfl fun _ _ ho => nomatch ho
  | disconnected => exact hsame rfl fun _ _ ho => nomatch ho
  | _ => exact hsame rfl fun _ _ ho => ho

/-! ### One event -/

theorem SetUpAfterStop.isolated (h : SetUpAfterStop s sh (p, e)) : Isolated s sh (p, e) := by
  cases e with
  | opened i cl => exact h.1
  | registered r n params => trivial
  | answered cause i n result => trivial
  | _ => exact h

/-- The pending frames stand an event. -/
theorem nothingStands_apply (hconnected : ∀ p, (sh.peers p).connected = connectedIn p sh.log)
    (hG : SetUpAfterStop s sh (p, e)) {f : Frame} (hstack : stack ∈ s.callStacks) (hf : f ∈ stack)
    (h : NothingStands sh f) : NothingStands (sh.apply (p, e)) f := by
  cases f with
  | clear q part =>
      intro i hi
      by_cases hq : p = q
      · subst hq
        rw [itemStands_self, h i hi]
        refine onItem_none fun r n params he hr => ?_
        subst he
        rw [← hconnected, Bool.eq_false_iff]
        intro hc
        refine hG hc ⟨stack, hstack, _, hf, rfl, ?_⟩
        rw [hr, hi]
      · rw [itemStands_of_ne hq]
        exact h i hi
  | clearRequests q =>
      intro id
      by_cases hq : p = q
      · subst hq
        rw [requestStands_self, h id]
        refine onOpen_none fun i cl he => ?_
        subst he
        rw [← hconnected, Bool.eq_false_iff]
        exact fun hc => hG.2 hc ⟨stack, hstack, _, hf, rfl⟩
      · rw [requestStands_of_ne hq]
        exact h id
  | _ => trivial

theorem Survives.apply (h : Survives sh) (hnothing : ∀ f ∈ stack, NothingStands sh f)
    (hproper : Proper stack sh (p, e)) (hG : SetUpAfterStop s sh (p, e)) :
    Survives (sh.apply (p, e)) where
  connected := connected_apply_in h.connected
  items q i n hstands := by
    rw [Shared.tables_apply]
    by_cases hq : q = p
    · subst hq
      rw [if_pos rfl]
      rw [itemStands_self] at hstands
      refine has_apply (h.items q) ?_ hG hstands
      rintro part rfl
      exact hnothing _ hproper
    · rw [if_neg hq]
      rw [itemStands_of_ne (Ne.symm hq)] at hstands
      exact h.items q i n hstands
  requests q id n := by
    refine openBy_apply_of_stands h.requests ?_ ?_ hG.isolated
    · rintro i cl rfl
      exact ⟨hproper.1, hproper.2.1⟩
    · rintro rfl
      exact hnothing _ hproper

end

/-! ### Main result -/

theorem survives_init : Survives {} where
  connected := fun _ => rfl
  items := fun _ _ _ h => nomatch h
  requests := fun _ _ _ h => nomatch h

/-- The deferred error of a send reads the id of its own request. -/
def ReadsOwnId (_ : Process) : ℕ × Action → Prop
  | (_, .notifier key id) => id = key
  | _ => True

instance (s : Process) : ∀ a, Decidable (ReadsOwnId s a)
  | (_, .notifier key id) => inferInstanceAs (Decidable (id = key))
  | (_, .call _) | (_, .ret) | (_, .run _) | (_, .telegram ..) | (_, .lost _) => .isTrue trivial

def SurvivalGuard (s : Process) (a : ℕ × Action) : Prop :=
  Meets SetUpAfterStop s a ∧ ReadsOwnId s a

instance (s : Process) (a : ℕ × Action) : Decidable (SurvivalGuard s a) :=
  inferInstanceAs (Decidable (_ ∧ _))

/-- **What is set up on a connection stays**, in every run in which it is set
up after `stop()` is through with the connection before. -/
theorem survives_run {n : ℕ} {as : List (ℕ × Action)} {s : Process}
    (h : processMachine.Run SurvivalGuard (Threads.idle {} n) as s) : Survives s.shared := by
  refine (process_invariant (J := NothingStands) h (fun _ _ hG => hG.1) survives_init
    (Threads.allFrames_idle _ _ _) ?_ ?_).1
  · rintro s stack sh ⟨p, e⟩ hstack hI hJ hproper hG
    refine ⟨hI.apply (hJ stack hstack) hproper hG, fun stack' hstack' f hf => ?_⟩
    exact nothingStands_apply hI.connected hG hstack' hf (hJ stack' hstack' f hf)
  · intro s stack tid a es f _ _ _ _ hf
    -- a stop begins with the loss of the connection
    cases f with
    | clear p part =>
        obtain ⟨rfl, -⟩ := hf
        exact fun i _ => if_pos rfl
    | clearRequests p =>
        obtain rfl : es = [(p, .disconnected)] := hf
        exact fun id => if_pos rfl
    | _ => trivial

/-! ### Inside a fetch callback, and after -/

/-- A peer connects and fetches; the connection is lost, and the fetch
callback that `stop()` calls resumes. -/
def lostAndResumed : List (ℕ × Action) :=
  [(0, .call (.resume 0)), (0, .run .go), (0, .run .go), (0, .run .go), (0, .run (.order [])),
    (0, .call (.addFetch 0 {} (some 0) .ignore)), (0, .run .go),
    (1, .lost 0), (1, .run .go), (1, .run .go), (1, .run (.next 1)),
    (1, .call (.resume 0)), (1, .run .go), (1, .run .go), (1, .run .go),
    (1, .run (.order [(1, true)]))]

/-- The rest of the callback and of `stop()`. -/
def restOfStop : List (ℕ × Action) :=
  [(1, .ret), (1, .run .done), (1, .run .go), (1, .run .go), (1, .run (.cancel [])),
    (1, .run .go)]

def addStateP (tid : ℕ) : List (ℕ × Action) :=
  [(tid, .call (.add 0 .state "p" .null .null none .ignore)), (tid, .run .go)]

theorem survives_run_after_stop :
    ∃ s, processMachine.Run SurvivalGuard (Threads.idle {} 2)
        (lostAndResumed ++ restOfStop ++ addStateP 0) s ∧
      (s.shared.peers 0).tables.Has (.served .state "p") := by
  have h : ∃ s, processMachine.evalIn SurvivalGuard (Threads.idle {} 2)
        (lostAndResumed ++ restOfStop ++ addStateP 0) = some s ∧
      itemStands 0 (.served .state "p") s.shared.log = some 1 := ⟨_, rfl, rfl⟩
  obtain ⟨s, hrun, hstands⟩ := h
  have hrun := Machine.Run.of_evalIn hrun
  exact ⟨s, hrun, (survives_run hrun).items 0 _ _ hstands⟩

/-- **A state added in the callback is cleared by the rest of `stop()`.** -/
theorem stop_clears_new_state :
    ∃ s, processMachine.Run Machine.Always (Threads.idle {} 2)
        (lostAndResumed ++ addStateP 1 ++ restOfStop) s ∧
      itemStands 0 (.served .state "p") s.shared.log = some 1 ∧
      ¬ (s.shared.peers 0).tables.Has (.served .state "p") ∧ ¬ Survives s.shared := by
  have h : ∃ s, processMachine.eval (Threads.idle {} 2)
        (lostAndResumed ++ addStateP 1 ++ restOfStop) = some s ∧
      itemStands 0 (.served .state "p") s.shared.log = some 1 ∧
      "p" ∉ (s.shared.peers 0).tables.stateCallbacks := ⟨_, rfl, rfl, by decide⟩
  obtain ⟨s, hrun, hstands, hnot⟩ := h
  exact ⟨s, Machine.Run.of_eval hrun, hstands, hnot, fun hs => hnot (hs.items 0 _ _ hstands)⟩

end JetPeer
