/-
JetPeer/Callbacks.lean

The registries of a peer and the callbacks that run.

State, method and fetch callbacks are called with the mutex of their registry
held: by the lookups of `handleMessage`, and by the loop of `stop()`.  The
registries are changed with the same mutex held.  So no thread changes a
registry while another is in one of its callbacks
(`registry_changes_exclude_callbacks`); the thread in the callback may, the
mutexes are recursive.  In particular `removeFetchAsync` returns to another
thread only after the callback has returned, and what the callback uses may be
destroyed then.

In the code of a thread the critical sections are brackets (`Locks.Piece`).
`segment_goOn` says so of the code of every function, whichever mutex is looked
at.
-/
import JetPeer.Mutexes
import JetPeer.Sections

namespace JetPeer

open Runs Locks

/-! ### Sections -/

/-- The mutex an instruction finds locked and gives back. -/
def Instr.ends : Instr → Option Mutex
  | .frame (.execute _ _) | .frame (.clearRequests _) | .take _ _ _ => some .openRequestCbs
  | .frame (.notify p _ _) | .findFetch p _ _ => some (.registry p .fetchers)
  | .findState p _ _ => some (.registry p .states)
  | .findMethod p _ => some (.registry p .methods)
  | _ => none

/-- A state, method or fetch callback. -/
def Instr.IsCallback : Instr → Prop
  | .frame .user => True
  | _ => False

/-- The mutex under which an instruction changes the tables, or goes through
one. -/
def Instr.guards : Instr → Option Mutex
  | .changed p (.registered r _ _) => some (.registry p r.item.part)
  | .changed p (.removed item) => some (.registry p item.part)
  | .changed p (.answered _ item _ result) =>
      if isError result then some (.registry p item.part) else none
  | .frame (.clear p part) => some (.registry p part)
  | .frame (.restore p) => some (.registry p .fetchers)
  | .frame (.destroySync _ _) => some .openRequestCbs
  | _ => none

/-- Code that gives `m` back `n` times more often than it takes it. -/
abbrev Segment (m : Mutex) (n : ℤ) (c : Code) : Prop :=
  Piece Instr.ends m Instr.IsCallback Instr.guards n c

/-- All frames but the loop of `stop()` in its middle. -/
def Frame.Fresh : Frame → Prop
  | .notify _ (some _) _ => False
  | _ => True

section

variable {m : Mutex} {n : ℤ} {c c' : Code} {sh sh' : Shared} {p : ℕ} {f : Frame} {i : Instr}
  {fs : List Frame}

theorem segment_run (hends : i.ends = none) (hguards : i.guards = none) :
    Segment m 0 [.run i] := by
  have h := @Piece.run _ _ _ Instr.ends m Instr.IsCallback Instr.guards _ hguards
  rwa [if_neg (by simp [hends])] at h

theorem Segment.append (h : Segment m 0 c) (h' : Segment m n c') : Segment m n (c ++ c') := by
  have happend := Piece.append h h'
  rwa [zero_add] at happend

/-- What stands in a section an instruction ends. -/
theorem Segment.unlock_after {m' : Mutex} (h : Segment m 0 c) :
    Segment m (if some m' = some m then 1 else 0) (c ++ [.unlock m']) := by
  have hunlock := @Piece.unlock _ _ _ Instr.ends m Instr.IsCallback Instr.guards m'
  simp only [Option.some.injEq]
  exact h.append hunlock

theorem Segment.unlock {m' : Mutex} (h : Segment m 0 c) :
    Segment m (if some m' = some m then 1 else 0) (.unlock m' :: c) := by
  have hunlock := @Piece.unlock _ _ _ Instr.ends m Instr.IsCallback Instr.guards m'
  have happend := Piece.append hunlock h
  simp only [Option.some.injEq]
  rwa [add_zero] at happend

/-! ### Functions -/

theorem segment_frame (h : f.Fresh) : Segment m 0 f.code := by
  cases f with
  | execute | clearRequests => exact Piece.lock_run rfl id rfl
  | destroySync | restore | clear =>
      refine Piece.scope rfl id ?_
      rintro m' ⟨⟩
      rfl
  | notify p todo visited =>
      cases todo with
      | none => exact Piece.lock_run rfl id rfl
      | some todo => exact h.elim
  | _ => exact segment_run rfl rfl

theorem segment_codeOf (h : ∀ f ∈ fs, f.Fresh) : Segment m 0 (codeOf fs) :=
  Piece.flatMap fun f hf => segment_frame (h f hf)

theorem segment_changed {e : Event} (hguards : (Instr.changed p e).guards = some m') :
    Segment m 0 (Stmt.scope m' [.run (.changed p e)]) := by
  refine Piece.scope rfl id ?_
  rw [hguards]
  rintro m'' ⟨⟩
  rfl

theorem fresh_request {doc : Json} {item : Option Item} {reply : Reply} :
    ∀ f ∈ (sh.request p doc item reply).2, f.Fresh := by
  cases reply <;> simp [Shared.request, Frame.Fresh]

/-- An operation of the API. -/
theorem segment_callCode (call : Call) : Segment m 0 (sh.callCode call) := by
  have hissued : ∀ {q}, Segment m 0 (Event.issued.code q) := segment_run rfl rfl
  have hchanged : ∀ {q q' e}, Segment m 0 (Event.code q e) →
      Segment m 0 ([(q, e), (q', Event.issued)].flatMap fun pe => pe.2.code pe.1) := by
    intro q q' e he
    simp only [List.flatMap_cons, List.flatMap_nil, List.append_nil]
    exact Segment.append he hissued
  cases call with
  | add | addFetch | removeFetch =>
      exact Segment.append (hchanged (segment_changed rfl)) (segment_codeOf fresh_request)
  | remove p kind path reply =>
      by_cases hpath : path = ""
      · simp only [Shared.callCode, Shared.call, if_pos hpath]
        exact Piece.nil
      · simp only [Shared.callCode, Shared.call, if_neg hpath]
        exact Segment.append (hchanged (segment_changed rfl)) (segment_codeOf fresh_request)
  | request p name params reply =>
      refine Segment.append ?_ (segment_codeOf fresh_request)
      simpa [Shared.call, Shared.request] using hissued
  | _ => exact Segment.append Piece.nil (segment_codeOf (by simp [Shared.call, Frame.Fresh]))

/-- The lambda of an add. -/
theorem segment_rollbackCode {cause serial : ℕ} {item : Option Item} {result : Json} :
    Segment m 0 (rollbackCode p cause item serial result) := by
  cases item with
  | none => exact Piece.nil
  | some item =>
      simp only [rollbackCode]
      split
      · next herror => exact segment_changed (if_pos herror)
      · next herror => exact segment_run rfl (if_neg herror)

theorem segment_messageCode {data : Json} : Segment m 0 (messageCode p data) := by
  have hlookup : ∀ {m' : Mutex} {i : Instr}, i.ends = some m' → ¬ i.IsCallback →
      i.guards = none → Segment m 0 [.lock m', .run i] := fun hends => Piece.lock_run hends
  unfold messageCode
  split
  · split
    · exact hlookup rfl id rfl
    · exact Piece.nil
  · split
    · exact hlookup rfl id rfl
    · exact Piece.nil
  · exact hlookup rfl id rfl
  · exact Piece.nil

/-! ### What an instruction brings -/

theorem fresh_callFetch {fetchId : FetchId} {fetcher : Fetcher} {params : Json} {status : Int} :
    ∀ f ∈ (Shared.callFetch p fetchId fetcher params status).2, f.Fresh := by
  unfold Shared.callFetch
  split <;> simp [Frame.Fresh]

theorem fresh_serve {callback : Option Callback} :
    ∀ f ∈ (Shared.serve p callback).2, f.Fresh := by
  cases callback <;> simp [Shared.serve, Frame.Fresh]

theorem fresh_complete {id : UInt32} {result : Json} :
    ∀ f ∈ (sh.complete p id result).2, f.Fresh := by
  unfold Shared.complete
  split <;> simp [Frame.Fresh]

theorem fresh_receive {r : Effect} (h : sh.receive p = some r) : ∀ f ∈ r.2, f.Fresh := by
  unfold Shared.receive at h
  split at h
  · cases h
  · obtain rfl := Option.some.inj h
    simp
  · split at h
    · obtain rfl := Option.some.inj h
      simp
    next es frames hm =>
      obtain rfl := Option.some.inj h
      have hframes : ∀ f ∈ frames, f.Fresh := by
        unfold Shared.handleMessage at hm
        split at hm
        · cases hm
        · obtain rfl := congrArg Prod.snd (Option.some.inj hm)
          exact fresh_complete
        · obtain rfl := congrArg Prod.snd (Option.some.inj hm)
          exact fresh_callFetch
        · obtain rfl := congrArg Prod.snd (Option.some.inj hm)
          exact fresh_serve
        · obtain rfl := congrArg Prod.snd (Option.some.inj hm)
          exact fresh_serve
        · obtain rfl := congrArg Prod.snd (Option.some.inj hm)
          simp
      exact List.forall_mem_append.mpr ⟨hframes, List.forall_mem_singleton.mpr trivial⟩

/-- Only the loop of `stop()` pushes itself. -/
theorem fresh_turn {ch : Choice} {r : Effect} (h : Shared.FrameTurn sh f ch r)
    (hloop : ∀ q todo visited, f ≠ .notify q todo visited) : ∀ g ∈ r.2, g.Fresh := by
  cases h with
  | execute cl doc =>
      rcases cl.callback with - | cb <;> simp [Frame.Fresh]
  | receive h => exact fresh_receive h
  | enter _ _ | visit _ _ | done _ => exact absurd rfl (hloop _ _ _)
  | stop q destroy => cases destroy <;> simp [Shared.teardown, Frame.Fresh]
  | clearRequests _ =>
      intro g hg
      obtain ⟨id, -, hid⟩ := List.mem_filterMap.mp hg
      obtain ⟨cl, -, rfl⟩ := Option.map_eq_some_iff.mp hid
      trivial
  | _ => simp [Frame.Fresh]

/-- The loop of `stop()`: its mutex is given back where it ends. -/
theorem segment_notify {todo : Option (List FetchId)} {visited : List FetchId} {ch : Choice}
    {ops : Code} (h : sh.goOnFrame (.notify p todo visited) ch = some (sh', ops)) :
    Segment m (if some (.registry p .fetchers) = some m then 1 else 0) ops := by
  have hloop : ∀ {todo visited}, Segment m (if some (.registry p .fetchers) = some m then 1 else 0)
      [.run (.frame (.notify p todo visited))] := fun {todo visited} =>
    Piece.run (i := Instr.frame (.notify p todo visited)) rfl
  cases todo with
  | none =>
      obtain ⟨r, hrun, heq⟩ := Option.map_eq_some_iff.mp h
      obtain ⟨-, rfl⟩ := Prod.mk.inj heq
      cases Shared.run_turn hrun with
      | enter _ _ => exact hloop
  | some todo =>
      cases ch with
      | next fetchId =>
          -- the callback runs with the fetches locked, then the loop goes on
          obtain ⟨r, hrun, heq⟩ := Option.map_eq_some_iff.mp h
          obtain ⟨-, rfl⟩ := Prod.mk.inj heq
          cases Shared.run_turn hrun with
          | visit _ _ =>
              rw [codeOf_append]
              exact Segment.append (segment_codeOf fresh_callFetch) hloop
      | done =>
          obtain ⟨r, hrun, heq⟩ := Option.map_eq_some_iff.mp h
          obtain ⟨-, rfl⟩ := Prod.mk.inj heq
          cases Shared.run_turn hrun with
          | done _ => exact Segment.unlock_after Piece.nil
      | _ => cases h

/-- Frame by frame. -/
theorem segment_goOnFrame {ch : Choice} {ops : Code}
    (h : sh.goOnFrame f ch = some (sh', ops)) :
    Segment m (if (Instr.frame f).ends = some m then 1 else 0) ops := by
  have hzero : ∀ {c : Code}, (Instr.frame f).ends = none → Segment m 0 c →
      Segment m (if (Instr.frame f).ends = some m then 1 else 0) c := by
    intro c hends hc
    rwa [if_neg (by simp [hends])]
  cases f with
  | user => cases ch <;> cases h
  | execute cl doc =>
      obtain ⟨r, hrun, heq⟩ := Option.map_eq_some_iff.mp h
      obtain ⟨-, rfl⟩ := Prod.mk.inj heq
      exact Segment.unlock
        (segment_codeOf (fresh_turn (Shared.run_turn hrun) fun _ _ _ h => by cases h))
  | await p item serial =>
      cases ch with
      | go =>
          obtain ⟨result, -, heq⟩ := Option.map_eq_some_iff.mp h
          obtain ⟨-, rfl⟩ := Prod.mk.inj heq
          exact hzero rfl segment_rollbackCode
      | _ => cases h
  | invoke cause cl result =>
      cases ch with
      | go =>
          simp only [Shared.goOnFrame] at h
          split at h
          · obtain ⟨-, rfl⟩ := Prod.mk.inj (Option.some.inj h)
            exact hzero rfl Piece.nil
          · obtain ⟨-, rfl⟩ := Prod.mk.inj (Option.some.inj h)
            exact hzero rfl segment_rollbackCode
      | _ => cases h
  | notify p todo visited => exact segment_notify h
  | clearRequests p =>
      obtain ⟨r, hrun, heq⟩ := Option.map_eq_some_iff.mp h
      obtain ⟨-, rfl⟩ := Prod.mk.inj heq
      exact Segment.unlock_after
        (segment_codeOf (fresh_turn (Shared.run_turn hrun) fun _ _ _ h => by cases h))
  | _ =>
      obtain ⟨r, hrun, heq⟩ := Option.map_eq_some_iff.mp h
      obtain ⟨-, rfl⟩ := Prod.mk.inj heq
      exact hzero rfl (segment_codeOf (fresh_turn (Shared.run_turn hrun) fun _ _ _ h => by cases h))

theorem segment_findFetch {fetchId : FetchId} {data : Json} :
    Segment m 0 (codeOf (sh.findFetch p fetchId data).2) := by
  refine segment_codeOf ?_
  unfold Shared.findFetch
  split
  · simp
  · split
    · simp
    · exact fresh_callFetch

theorem segment_findState {method : String} {data : Json} :
    Segment m (if some (.registry p .states) = some m then 1 else 0)
      (sh.findState p method data) := by
  have hunlock : ∀ {c : Code}, Segment m 0 c →
      Segment m (if some (.registry p .states) = some m then 1 else 0)
        (c ++ [.unlock (.registry p .states)]) := fun hc => hc.unlock_after
  have hmethods : Segment m (if some (.registry p .states) = some m then 1 else 0)
      (.unlock (.registry p .states) :: [.lock (.registry p .methods),
        .run (.findMethod p method)]) :=
    Segment.unlock (Piece.lock_run rfl id rfl)
  generalize (if some (Mutex.registry p .states) = some m then (1 : ℤ) else 0) = n
    at hunlock hmethods ⊢
  unfold Shared.findState
  split
  · exact hmethods
  · split
    · exact hunlock Piece.nil
    · split
      · exact hunlock Piece.nil
      · exact hunlock (segment_codeOf fresh_serve)

theorem segment_findMethod {method : String} :
    Segment m (if some (.registry p .methods) = some m then 1 else 0)
      (sh.findMethod p method) := by
  unfold Shared.findMethod
  rcases (sh.peers p).tables.methodCallbacks.lookup method with - | callback
  · exact Segment.unlock_after Piece.nil
  · exact Segment.unlock_after (segment_codeOf fresh_serve)

/-- **The sections of every function**: what an instruction puts in front gives
back what the instruction is to give back. -/
theorem segment_goOn {mv : Move} {ops : Code} (h : sh.goOn i mv = some (sh', ops)) :
    Segment m (if i.ends = some m then 1 else 0) ops := by
  have hzero : ∀ {c : Code}, i.ends = none → Segment m 0 c →
      Segment m (if i.ends = some m then 1 else 0) c := by
    intro c hends hc
    rwa [if_neg (by simp [hends])]
  -- user code and the event loop come back to where they were
  have hback : ∀ {c : Code}, i.ends = none → i.guards = none → Segment m 0 c →
      Segment m (if i.ends = some m then 1 else 0) (c ++ [.run i]) := fun hends hguards hc =>
    hzero hends (hc.append (segment_run hends hguards))
  cases i with
  | idle =>
      cases mv with
      | call call =>
          obtain ⟨-, rfl⟩ := Prod.mk.inj (Option.some.inj h)
          exact hback rfl rfl (segment_callCode call)
      | message p data =>
          obtain ⟨-, rfl⟩ := Prod.mk.inj (Option.some.inj h)
          exact hback rfl rfl segment_messageCode
      | notifier p id e =>
          obtain ⟨-, rfl⟩ := Prod.mk.inj (Option.some.inj h)
          exact hback rfl rfl (Piece.lock_run rfl (fun hcallback => hcallback) rfl)
      | _ => cases h
  | frame f =>
      cases f with
      | user =>
          cases mv with
          | call call =>
              obtain ⟨-, rfl⟩ := Prod.mk.inj (Option.some.inj h)
              exact hback rfl rfl (segment_callCode call)
          | ret =>
              obtain ⟨-, rfl⟩ := Prod.mk.inj (Option.some.inj h)
              exact hzero rfl Piece.nil
          | go ch => cases ch <;> cases h
          | _ => cases h
      | _ =>
          cases mv with
          | go ch => exact segment_goOnFrame h
          | _ => cases h
  | changed p e =>
      obtain rfl := eq_go_of_goOn h nofun nofun
      obtain ⟨-, rfl⟩ := Prod.mk.inj (Option.some.inj h)
      exact hzero rfl Piece.nil
  | take p id data =>
      obtain rfl := eq_go_of_goOn h nofun nofun
      obtain ⟨-, rfl⟩ := Prod.mk.inj (Option.some.inj h)
      exact Segment.unlock (segment_codeOf fresh_complete)
  | findFetch p fetchId data =>
      obtain rfl := eq_go_of_goOn h nofun nofun
      obtain ⟨-, rfl⟩ := Prod.mk.inj (Option.some.inj h)
      exact Segment.unlock_after segment_findFetch
  | findState p method data =>
      obtain rfl := eq_go_of_goOn h nofun nofun
      obtain ⟨-, rfl⟩ := Prod.mk.inj (Option.some.inj h)
      exact segment_findState
  | findMethod p method =>
      obtain rfl := eq_go_of_goOn h nofun nofun
      obtain ⟨-, rfl⟩ := Prod.mk.inj (Option.some.inj h)
      exact segment_findMethod

end

/-! ### Runs -/

/-- A thread is in a callback that was called with the mutex held. -/
def InCallback (m : Mutex) (th : Thread Mutex Instr) : Prop :=
  Within Instr.ends m Instr.IsCallback th

section

variable {sh : Shared} {n j : ℕ} {C : System Shared Mutex Instr → ℕ × Move → Prop}
  {as : List (ℕ × Move)} {s t : System Shared Mutex Instr} {th : Thread Mutex Instr}
  {i : Instr} {c : Code} {m : Mutex}

theorem bracketed_idle :
    ∀ th ∈ (idleThreads sh n).threads, Bracketed Instr.ends m Instr.IsCallback Instr.guards th := by
  intro th hth
  rw [List.eq_of_mem_replicate hth]
  exact segment_run rfl rfl

theorem exclusive_idle : (idleThreads sh n).Exclusive := by
  intro j k m hj
  obtain ⟨th, hth, hheld⟩ := System.exists_of_mem_heldBy hj
  rw [List.eq_of_mem_replicate (List.mem_of_getElem? hth)] at hheld
  exact absurd hheld List.not_mem_nil

/-- Where the lookups of `handleMessage` or the loop of `stop()` call a callback,
they do so with their mutex held. -/
theorem called_inCallback {mv : Move} {th' : Thread Mutex Instr} {c' : Code}
    (h : (lockMachine library).Run C (idleThreads sh n) as s)
    (hstep : (lockMachine library).step s (j, mv) = some t)
    (hj : s.threads[j]? = some th) (hcode : th.code = .run i :: c) (hends : i.ends = some m)
    (hj' : t.threads[j]? = some th') (hcall : th'.code = .run (.frame .user) :: c') :
    InCallback m th' := by
  have hbracketed := h.invariant
    (I := fun s => ∀ th ∈ s.threads, Bracketed Instr.ends m Instr.IsCallback Instr.guards th)
    bracketed_idle fun _ _ _ hu _ hstep => bracketed_step hu hstep fun _ _ _ => segment_goOn
  have hpiece : Segment m _ th.code := hbracketed th (List.mem_of_getElem? hj)
  rw [hcode] at hpiece
  have hrest := hpiece.tail.gives
  obtain ⟨th₀, hth₀, hturn⟩ := step_cases library hstep
  obtain rfl : th = th₀ := Option.some.inj (hj.symm.trans hth₀)
  rcases hturn with ⟨m', d, hd, -⟩ | ⟨m', d, hd, -⟩ | ⟨i', d, shared, ops, hd, hrun, rfl⟩
  · cases hcode.symm.trans hd
  · cases hcode.symm.trans hd
  · obtain ⟨hi, rfl⟩ := List.cons.inj (hcode.symm.trans hd)
    cases hi
    have hops : Segment m (if i.ends = some m then 1 else 0) ops := segment_goOn hrun
    rw [if_pos hends] at hops
    have hlt : j < s.threads.length := (List.getElem?_eq_some_iff.mp hj).1
    obtain rfl : (⟨th.held, ops ++ c⟩ : Thread Mutex Instr) = th' :=
      Option.some.inj ((List.getElem?_set_self hlt).symm.trans hj')
    cases ops with
    | nil =>
        -- the mutex has to be given back
        have hdepth : (0 : ℤ) = 1 := hops.depth_eq
        cases hdepth
    | cons x d =>
        obtain ⟨rfl, -⟩ := List.cons.inj hcall
        exact Within.of_run hops hrest trivial rfl

/-- **No registry changes under a callback of another thread**, in every run: a
thread that is about to change a registry holds its mutex, and no other thread
is in a callback of that registry. -/
theorem registry_changes_exclude_callbacks
    (h : (lockMachine library).Run C (idleThreads sh n) as t) (hj : t.threads[j]? = some th)
    (hcode : th.code = .run i :: c) (hm : m ∈ i.guards) :
    m ∈ th.held ∧ ∀ k th', t.threads[k]? = some th' → InCallback m th' → k = j := by
  have hexcludes : ∀ {k th'}, t.threads[k]? = some th' →
      m ∈ th.held ∧ (InCallback m th' → k = j) := fun hk =>
    guarded_excludes h exclusive_idle bracketed_idle (fun _ _ _ _ _ => segment_goOn) hj hk hcode hm
  exact ⟨(hexcludes hj).1, fun k th' hk => (hexcludes hk).2⟩

end

/-- The callback of a state removes the state. -/
def removesOwnState : List (ℕ × Move) :=
  addsState ++ callsState ++ [(0, .call (.remove 0 .state "s" .ignore)), (0, .go .go)]

theorem registry_changes_exclude_callbacks_own :
    ∃ t th, (lockMachine library).Run Machine.Always (idleThreads connectedPeers 2)
        removesOwnState t ∧ t.threads[0]? = some th ∧ .registry 0 .states ∈ th.held ∧
      ∀ k th', t.threads[k]? = some th' → InCallback (.registry 0 .states) th' → k = 0 := by
  have h : ∃ t th c, (lockMachine library).eval (idleThreads connectedPeers 2) removesOwnState =
      some t ∧ t.threads[0]? = some th ∧
      th.code = .run (.changed 0 (.removed (.served .state "s"))) :: c :=
    ⟨_, _, _, rfl, rfl, rfl⟩
  obtain ⟨t, th, c, ht, hth, hcode⟩ := h
  have hrun := Machine.Run.of_eval ht
  exact ⟨t, th, hrun, hth, registry_changes_exclude_callbacks hrun hth hcode rfl⟩

end JetPeer
