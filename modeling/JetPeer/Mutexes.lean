/-
JetPeer/Mutexes.lean

The mutexes of the library: the static `m_mtx_openRequestCbs`, and for each
peer the recursive ones of its three registries.

The functions are those of `Process`, with their locks put around them:
`Frame.code` and `Event.code` say which mutex the rest of a function takes
first, `Shared.goOn` what it does under it.  Two things are finer here.  The
lookups of `handleMessage` are two critical sections, one for the states and
one for the methods, and a rollback takes the registry of its item.

User code that runs in a state, method or fetch callback may call anything;
the result callbacks of requests call nothing.
-/
import JetPeer.Locks
import JetPeer.Process

namespace JetPeer

open Runs Locks

/-! ### Mutexes -/

inductive Mutex where
  | openRequestCbs
  | registry (p : ℕ) (part : Part)
  deriving DecidableEq

/-- `std::recursive_mutex`. -/
def Mutex.recursive : Mutex → Bool
  | .openRequestCbs => false
  | .registry _ _ => true

/-- What a thread has to run. -/
inductive Instr where
  /-- The thread is outside of the library, in no callback: user code, or the
  event loop. -/
  | idle
  | frame (f : Frame)
  | changed (p : ℕ) (e : Event)
  /-- The critical section of `handleResult`. -/
  | take (p : ℕ) (id : UInt32) (data : Json)
  /-- The lookups of `handleMessage`, and what follows them. -/
  | findFetch (p : ℕ) (fetchId : FetchId) (data : Json)
  | findState (p : ℕ) (method : String) (data : Json)
  | findMethod (p : ℕ) (method : String)

abbrev Code := List (Stmt Mutex Instr)

/-! ### Functions with their locks -/

/-- `registerState`, `unregisterState` and their siblings. -/
def Event.code (p : ℕ) : Event → Code
  | .registered r serial params =>
      Stmt.scope (.registry p r.item.part) [.run (.changed p (.registered r serial params))]
  | .removed item => Stmt.scope (.registry p item.part) [.run (.changed p (.removed item))]
  | e => [.run (.changed p e)]

/-- The rest of a function, up to where it next gives a mutex back.  `execute`,
`clear` and the loop of `stop` do so in `Shared.goOn`. -/
def Frame.code : Frame → Code
  | .execute cl doc => [.lock .openRequestCbs, .run (.frame (.execute cl doc))]
  | .destroySync p id => Stmt.scope .openRequestCbs [.run (.frame (.destroySync p id))]
  | .restore p => Stmt.scope (.registry p .fetchers) [.run (.frame (.restore p))]
  | .notify p none visited =>
      [.lock (.registry p .fetchers), .run (.frame (.notify p none visited))]
  | .clear p part => Stmt.scope (.registry p part) [.run (.frame (.clear p part))]
  | .clearRequests p => [.lock .openRequestCbs, .run (.frame (.clearRequests p))]
  | f => [.run (.frame f)]

def codeOf (fs : List Frame) : Code := fs.flatMap Frame.code

theorem codeOf_append (fs gs : List Frame) : codeOf (fs ++ gs) = codeOf fs ++ codeOf gs :=
  List.flatMap_append

/-- The lambda of an add: only an error unregisters. -/
def rollbackCode (p cause : ℕ) (item : Option Item) (serial : ℕ) (result : Json) : Code :=
  match item with
  | none => []
  | some item =>
      if isError result then
        Stmt.scope (.registry p item.part) [.run (.changed p (.answered cause item serial result))]
      else [.run (.changed p (.answered cause item serial result))]

/-- An operation of the API. -/
def Shared.callCode (sh : Shared) (c : Call) : Code :=
  ((sh.call c).1.flatMap fun pe => pe.2.code pe.1) ++ codeOf (sh.call c).2

/-- `handleResult` with the id already read. -/
def handleResultCode (p : ℕ) (id : UInt32) (data : Json) : Code :=
  [.lock .openRequestCbs, .run (.take p id data)]

/-- `handleMessage`, up to its first lookup. -/
def messageCode (p : ℕ) (data : Json) : Code :=
  match data.at Jsonrpc.method with
  | .ok .null =>
      match responseId data with
      | .ok id => handleResultCode p id data
      | .error _ => []
  | .ok (.int n) =>
      match (Json.int n).asInt with
      | .ok fetchId => [.lock (.registry p .fetchers), .run (.findFetch p fetchId data)]
      | .error _ => []
  | .ok (.string method) => [.lock (.registry p .states), .run (.findState p method data)]
  | _ => []

/-- What a thread does next: it goes on, user code calls or returns, or the
event loop has found a message or an event of a notifier. -/
inductive Move where
  | go (c : Choice)
  | call (c : Call)
  | ret
  | message (p : ℕ) (data : Json)
  | notifier (p : ℕ) (id : UInt32) (e : JsonrpcException)

namespace Shared

/-- `handleMessage` with the states locked.  Where the lookup fails it goes on
to the methods. -/
def findState (sh : Shared) (p : ℕ) (method : String) (data : Json) : Code :=
  match (sh.peers p).tables.stateCallbacks.lookup method with
  | none =>
      [.unlock (.registry p .states), .lock (.registry p .methods),
        .run (.findMethod p method)]
  | some callback =>
      match (data.at Jsonrpc.params).bind fun params => params.at Word.value with
      | .error _ => [.unlock (.registry p .states)]
      | .ok value =>
          if value.isNull then [.unlock (.registry p .states)]
          else codeOf (serve p callback).2 ++ [.unlock (.registry p .states)]

/-- `handleMessage` with the methods locked. -/
def findMethod (sh : Shared) (p : ℕ) (method : String) : Code :=
  match (sh.peers p).tables.methodCallbacks.lookup method with
  | none => [.unlock (.registry p .methods)]
  | some callback => codeOf (serve p callback).2 ++ [.unlock (.registry p .methods)]

/-- `handleMessage` with the fetches locked. -/
def findFetch (sh : Shared) (p : ℕ) (fetchId : FetchId) (data : Json) : Effect :=
  match (sh.peers p).tables.fetchers.lookup fetchId with
  | none => ([], [])
  | some fetcher =>
      match data.at Jsonrpc.params with
      | .error _ => ([], [])
      | .ok params => callFetch p fetchId fetcher params 0

/-- The rest of a function goes on.  A result callback calls nothing. -/
def goOnFrame (sh : Shared) (f : Frame) (c : Choice) : Option (Shared × Code) :=
  match f, c with
  -- `m_mtx_openRequestCbs` is given back before `sendMessage`
  | .execute cl doc, c =>
      (sh.run (.execute cl doc) c).map fun r =>
        (sh.applyAll r.1, .unlock .openRequestCbs :: codeOf r.2)
  | .await p item serial, .go =>
      (sh.promises serial).map fun result => (sh, rollbackCode p p item serial result)
  | .invoke cause cl result, .go =>
      match cl.callback with
      | none => some (sh.apply (cl.peer, .fulfilled cl.serial result), [])
      | some _ => some (sh, rollbackCode cl.peer cause cl.item cl.serial result)
  | .notify p (some todo) visited, .done =>
      (sh.run (.notify p (some todo) visited) .done).map fun r =>
        (sh.applyAll r.1, codeOf r.2 ++ [.unlock (.registry p .fetchers)])
  -- the callbacks run before it is given back
  | .clearRequests p, c =>
      (sh.run (.clearRequests p) c).map fun r =>
        (sh.applyAll r.1, codeOf r.2 ++ [.unlock .openRequestCbs])
  | f, c => (sh.run f c).map fun r => (sh.applyAll r.1, codeOf r.2)

/-- What a thread does. -/
def goOn (sh : Shared) : Instr → Move → Option (Shared × Code)
  | .idle, .call c => some (sh, sh.callCode c ++ [.run .idle])
  | .idle, .message p data => some (sh, messageCode p data ++ [.run .idle])
  | .idle, .notifier p id e =>
      some (sh, handleResultCode p id (errorResponse id e.code e.message) ++ [.run .idle])
  | .frame .user, .call c => some (sh, sh.callCode c ++ [.run (.frame .user)])
  | .frame .user, .ret => some (sh, [])
  | .frame f, .go c => sh.goOnFrame f c
  | .changed p e, .go .go => some (sh.apply (p, e), [])
  | .take p id data, .go .go =>
      let r := sh.complete p id data
      some (sh.applyAll r.1, .unlock .openRequestCbs :: codeOf r.2)
  | .findFetch p fetchId data, .go .go =>
      let r := sh.findFetch p fetchId data
      some (sh.applyAll r.1, codeOf r.2 ++ [.unlock (.registry p .fetchers)])
  | .findState p method data, .go .go => some (sh, sh.findState p method data)
  | .findMethod p method, .go .go => some (sh, sh.findMethod p method)
  | _, _ => none

end Shared

/-- The library under any number of threads. -/
abbrev library : Program Shared Mutex Instr Move := ⟨Mutex.recursive, Shared.goOn⟩

/-- `n` threads, none of them in the library. -/
def idleThreads (sh : Shared) (n : ℕ) : System Shared Mutex Instr :=
  ⟨sh, List.replicate n { code := [.run .idle] }⟩

/-! ### What the instructions promise -/

/-- A request with a result callback is entered into the table. -/
def Reply.locks : Reply → List Mutex
  | .ignore => []
  | _ => [.openRequestCbs]

/-- The mutexes an operation takes, one after the other. -/
def Call.locks : Call → List Mutex
  | .add p kind path _ _ _ reply => .registry p (Item.served kind path).part :: reply.locks
  | .addFetch p _ _ reply => .registry p .fetchers :: reply.locks
  | .remove p kind path reply =>
      if path = "" then [] else .registry p (Item.served kind path).part :: reply.locks
  | .removeFetch p _ reply => .registry p .fetchers :: reply.locks
  | .request _ _ _ reply => reply.locks
  | .sendMessage _ _ => []
  | .stop p | .destroy p =>
      [.registry p .fetchers, .registry p .states, .registry p .methods, .openRequestCbs]
  | .resume p => [.registry p .fetchers]

section Order

variable {β : Type*} [Preorder β] (rank : Mutex → β)

/-- The mutex comes after all the thread holds, or it is a recursive one the
thread holds. -/
abbrev MayTake (hs : List Mutex) (m : Mutex) : Prop := Above library rank hs m

/-- When an instruction may run, by what its thread holds. -/
def Safe (hs : List Mutex) : Instr → Prop
  | .idle => hs = []
  | .frame .user => .openRequestCbs ∉ hs
  | .frame (.execute cl _) =>
      ∃ hs', hs = .openRequestCbs :: hs' ∧ MayTake rank hs' .openRequestCbs ∧
        (cl.callback = none → ∀ i ∈ cl.item, MayTake rank hs' (.registry cl.peer i.part))
  | .frame (.await p item _) => ∀ i ∈ item, MayTake rank hs (.registry p i.part)
  | .frame (.invoke _ cl _) =>
      cl.callback ≠ none → ∀ i ∈ cl.item, MayTake rank hs (.registry cl.peer i.part)
  | .frame (.receive _) => False
  | .frame (.connect p) => MayTake rank hs (.registry p .fetchers)
  | .frame (.stop p _) => ∀ m ∈ (Call.stop p).locks, MayTake rank hs m
  | .frame (.notify p _ _) =>
      ∃ hs', hs = .registry p .fetchers :: hs' ∧ .openRequestCbs ∉ hs'
  | .frame (.clearRequests _) =>
      ∃ hs', hs = .openRequestCbs :: hs' ∧ MayTake rank hs' .openRequestCbs
  | .take _ _ _ => hs = [.openRequestCbs]
  | .findFetch p _ _ => hs = [.registry p .fetchers]
  | .findState p _ _ => hs = [.registry p .states]
  | .findMethod p _ => hs = [.registry p .methods]
  | _ => True

/-- What the thread holds when an instruction and what it brings are done. -/
def held : Instr → List Mutex → List Mutex
  | .frame (.execute _ _), hs | .frame (.clearRequests _), hs | .take _ _ _, hs =>
      hs.erase .openRequestCbs
  | .frame (.notify p _ _), hs | .findFetch p _ _, hs => hs.erase (.registry p .fetchers)
  | .findState p _ _, hs => hs.erase (.registry p .states)
  | .findMethod p _, hs => hs.erase (.registry p .methods)
  | _, hs => hs

/-- The code may stand where `hs` is held, and leaves it held. -/
structure Stands (hs : List Mutex) (c : Code) : Prop where
  upward : Upward library rank (Safe rank) held hs c
  keeps : heldAfter held hs c = hs

variable {rank} {hs : List Mutex} {c c' : Code} {m : Mutex}

/-- `m_mtx_openRequestCbs` is not taken again by its holder. -/
theorem not_mem_of_mayTake (h : MayTake rank hs .openRequestCbs) : .openRequestCbs ∉ hs := by
  intro hmem
  rcases h _ hmem with hlt | ⟨-, hrec⟩
  · exact lt_irrefl _ hlt
  · cases hrec

theorem Stands.append (h : Stands rank hs c) (h' : Stands rank hs c') :
    Stands rank hs (c ++ c') := by
  constructor
  · rw [upward_append, h.keeps]
    exact ⟨h.upward, h'.upward⟩
  · rw [heldAfter_append, h.keeps, h'.keeps]

theorem Stands.nil : Stands rank hs [] := ⟨trivial, rfl⟩

theorem Stands.flatMap {γ : Type*} {f : γ → Code} {l : List γ}
    (h : ∀ x ∈ l, Stands rank hs (f x)) : Stands rank hs (l.flatMap f) :=
  ⟨upward_flatMap fun x hx => ⟨(h x hx).upward, (h x hx).keeps⟩,
    heldAfter_flatMap fun x hx => (h x hx).keeps⟩

/-- An instruction that takes nothing. -/
theorem Stands.run {i : Instr} (h : Safe rank hs i) (hheld : held i hs = hs) :
    Stands rank hs [.run i] := ⟨⟨h, trivial⟩, hheld⟩

theorem Stands.scope (hm : MayTake rank hs m) (hbody : Stands rank (m :: hs) c) :
    Stands rank hs (Stmt.scope m c) :=
  ⟨upward_scope hm hbody.upward, heldAfter_scope hbody.keeps⟩

/-- What follows a critical section that an instruction ends. -/
theorem Stands.unlock (h : Stands rank hs c) :
    Upward library rank (Safe rank) held (m :: hs) (.unlock m :: c) ∧
      heldAfter held (m :: hs) (.unlock m :: c) = (m :: hs).erase m := by
  rw [List.erase_cons_head]
  refine ⟨?_, ?_⟩
  · rw [upward_unlock, List.erase_cons_head]
    exact h.upward
  · rw [heldAfter_unlock, List.erase_cons_head]
    exact h.keeps

/-- What stands in a critical section up to its end. -/
theorem Stands.unlock_after (h : Stands rank (m :: hs) c) :
    Upward library rank (Safe rank) held (m :: hs) (c ++ [.unlock m]) ∧
      heldAfter held (m :: hs) (c ++ [.unlock m]) = (m :: hs).erase m := by
  refine ⟨?_, ?_⟩
  · rw [upward_append, h.keeps]
    exact ⟨h.upward, trivial⟩
  · rw [heldAfter_append, h.keeps]
    rfl

/-! ### Functions -/

/-- The lambda of an add. -/
theorem stands_rollbackCode {p cause serial : ℕ} {item : Option Item} {result : Json}
    (h : ∀ i ∈ item, MayTake rank hs (.registry p i.part)) :
    Stands rank hs (rollbackCode p cause item serial result) := by
  cases item with
  | none => exact Stands.nil
  | some item =>
      simp only [rollbackCode]
      split
      · exact Stands.scope (h item rfl) (Stands.run trivial rfl)
      · exact Stands.run trivial rfl

theorem stands_execute {cl : Closure} {doc : Json} (h : MayTake rank hs .openRequestCbs)
    (hitem : cl.callback = none → ∀ i ∈ cl.item, MayTake rank hs (.registry cl.peer i.part)) :
    Stands rank hs (Frame.execute cl doc).code :=
  ⟨⟨h, ⟨hs, rfl, h, hitem⟩, trivial⟩,
    show (Mutex.openRequestCbs :: hs).erase .openRequestCbs = hs from List.erase_cons_head ..⟩

theorem stands_clearRequests {p : ℕ} (h : MayTake rank hs .openRequestCbs) :
    Stands rank hs (Frame.clearRequests p).code :=
  ⟨⟨h, ⟨hs, rfl, h⟩, trivial⟩,
    show (Mutex.openRequestCbs :: hs).erase .openRequestCbs = hs from List.erase_cons_head ..⟩

theorem stands_notify {p : ℕ} {visited : List FetchId}
    (h : MayTake rank hs (.registry p .fetchers)) (hfree : .openRequestCbs ∉ hs) :
    Stands rank hs (Frame.notify p none visited).code :=
  ⟨⟨h, ⟨hs, rfl, hfree⟩, trivial⟩, List.erase_cons_head ..⟩

theorem stands_clear {p : ℕ} {part : Part} (h : MayTake rank hs (.registry p part)) :
    Stands rank hs (Frame.clear p part).code :=
  Stands.scope h (Stands.run trivial rfl)

/-- `stop()` takes its mutexes one after the other. -/
theorem stands_teardown {p : ℕ} {destroy : Bool}
    (h : ∀ m ∈ (Call.stop p).locks, MayTake rank hs m) :
    Stands rank hs (codeOf (Shared.teardown p destroy)) := by
  have hfetchers := h (.registry p .fetchers) (by simp [Call.locks])
  have hrequests := h .openRequestCbs (by simp [Call.locks])
  refine Stands.flatMap fun f hf => ?_
  rcases List.mem_append.mp hf with hf | hf
  · simp only [List.mem_cons, List.not_mem_nil, or_false] at hf
    rcases hf with rfl | rfl | rfl | rfl
    · exact stands_notify hfetchers (not_mem_of_mayTake hrequests)
    · exact stands_clear (h _ (by simp [Call.locks]))
    · exact stands_clear (h _ (by simp [Call.locks]))
    · exact stands_clearRequests hrequests
  · cases destroy with
    | false => exact absurd hf List.not_mem_nil
    | true =>
        obtain rfl := List.mem_singleton.mp hf
        exact stands_clear hfetchers

/-- The constructor of a request and `execute`.  A synchronous add rolls back in
its caller, with the result in hand. -/
theorem stands_request {sh : Shared} {p : ℕ} {doc : Json} {item : Option Item} {reply : Reply}
    (hreply : ∀ m ∈ reply.locks, MayTake rank hs m)
    (hitem : ∀ i ∈ item, MayTake rank hs (.registry p i.part)) :
    Stands rank hs (codeOf (sh.request p doc item reply).2) := by
  refine Stands.flatMap fun f hf => ?_
  cases reply with
  | ignore =>
      obtain rfl := List.mem_singleton.mp hf
      exact Stands.run trivial rfl
  | callback cb =>
      obtain rfl := List.mem_singleton.mp hf
      exact stands_execute (hreply _ List.mem_cons_self) fun _ => hitem
  | await =>
      obtain rfl := List.mem_singleton.mp hf
      exact stands_execute (hreply _ List.mem_cons_self) fun _ => hitem

/-- An operation of the API, where everything it takes may be taken. -/
theorem stands_callCode {sh : Shared} {call : Call} (h : ∀ m ∈ call.locks, MayTake rank hs m) :
    Stands rank hs (sh.callCode call) := by
  have hnone : ∀ {p}, ∀ i ∈ (none : Option Item), MayTake rank hs (.registry p i.part) :=
    fun i hi => absurd hi (Option.not_mem_none i)
  have hissued : ∀ {p}, Stands rank hs (Event.issued.code p) := Stands.run trivial rfl
  have hchanged : ∀ {p m} {e : Event}, Stands rank hs (e.code p) →
      Stands rank hs ([(p, e), (m, Event.issued)].flatMap fun pe => pe.2.code pe.1) := by
    intro p m e he
    simp only [List.flatMap_cons, List.flatMap_nil, List.append_nil]
    exact he.append hissued
  cases call with
  | add p kind path value params callback reply =>
      have hitem : MayTake rank hs (.registry p (Item.served kind path).part) :=
        h _ List.mem_cons_self
      refine Stands.append (hchanged (Stands.scope hitem (Stands.run trivial rfl)))
        (stands_request (fun m hm => h m (List.mem_cons_of_mem _ hm)) ?_)
      rintro i ⟨⟩
      exact hitem
  | addFetch p m callback reply =>
      have hitem : MayTake rank hs (.registry p .fetchers) := h _ List.mem_cons_self
      refine Stands.append (hchanged (Stands.scope hitem (Stands.run trivial rfl)))
        (stands_request (fun m hm => h m (List.mem_cons_of_mem _ hm)) ?_)
      rintro i ⟨⟩
      exact hitem
  | remove p kind path reply =>
      by_cases hpath : path = ""
      · simp only [Shared.callCode, Shared.call, if_pos hpath]
        exact Stands.nil
      · rw [Call.locks, if_neg hpath] at h
        simp only [Shared.callCode, Shared.call, if_neg hpath]
        exact Stands.append
          (hchanged (Stands.scope (h _ List.mem_cons_self) (Stands.run trivial rfl)))
          (stands_request (fun m hm => h m (List.mem_cons_of_mem _ hm)) hnone)
  | removeFetch p fetchId reply =>
      exact Stands.append
        (hchanged (Stands.scope (h _ List.mem_cons_self) (Stands.run trivial rfl)))
        (stands_request (fun m hm => h m (List.mem_cons_of_mem _ hm)) hnone)
  | request p name params reply =>
      refine Stands.append ?_ (stands_request h hnone)
      simpa [Shared.call, Shared.request] using hissued
  | sendMessage p doc => exact Stands.run trivial rfl
  | stop p => exact Stands.run h rfl
  | destroy p => exact Stands.run h rfl
  | resume p => exact Stands.run (h _ List.mem_cons_self) rfl

theorem stands_handleResultCode {p : ℕ} {id : UInt32} {data : Json} :
    Stands rank [] (handleResultCode p id data) :=
  ⟨⟨above_nil, rfl, trivial⟩, rfl⟩

/-- `handleMessage`, outside of any callback. -/
theorem stands_messageCode {p : ℕ} {data : Json} : Stands rank [] (messageCode p data) := by
  have hlookup : ∀ {m : Mutex} {i : Instr}, Safe rank [m] i → held i [m] = [] →
      Stands rank [] [.lock m, .run i] :=
    fun hsafe hheld => ⟨⟨above_nil, hsafe, trivial⟩, hheld⟩
  unfold messageCode
  split
  · split
    · exact stands_handleResultCode
    · exact Stands.nil
  · split
    · exact hlookup rfl (List.erase_cons_head ..)
    · exact Stands.nil
  · exact hlookup rfl (List.erase_cons_head ..)
  · exact Stands.nil

theorem stands_serve {p : ℕ} {callback : Option Callback} (h : .openRequestCbs ∉ hs) :
    Stands rank hs (codeOf (Shared.serve p callback).2) := by
  refine Stands.flatMap fun f hf => ?_
  rcases List.mem_append.mp hf with hf | hf
  · obtain ⟨cb, -, rfl⟩ := List.mem_map.mp hf
    exact Stands.run h rfl
  · obtain rfl := List.mem_singleton.mp hf
    exact Stands.run trivial rfl

theorem stands_callFetch {p : ℕ} {fetchId : FetchId} {fetcher : Fetcher} {params : Json}
    {status : Int} (h : .openRequestCbs ∉ hs) :
    Stands rank hs (codeOf (Shared.callFetch p fetchId fetcher params status).2) := by
  unfold Shared.callFetch
  split
  · exact Stands.nil
  · exact Stands.run h rfl

/-! ### What an instruction brings -/

/-- The code an instruction puts in front of the rest is all right, and leaves
held what `held` says. -/
def Brings (rank : Mutex → β) (hs : List Mutex) (i : Instr) (c : Code) : Prop :=
  Upward library rank (Safe rank) held hs c ∧ heldAfter held hs c = held i hs

theorem Stands.brings {i : Instr} (h : Stands rank hs c) (hheld : held i hs = hs) :
    Brings rank hs i c := ⟨h.upward, h.keeps.trans hheld.symm⟩

/-- No registry mutex is `m_mtx_openRequestCbs`. -/
theorem openRequestCbs_not_mem {p : ℕ} {part : Part} (h : .openRequestCbs ∉ hs) :
    .openRequestCbs ∉ Mutex.registry p part :: hs := by
  intro hmem
  rcases List.mem_cons.mp hmem with heq | hmem
  · cases heq
  · exact h hmem

theorem brings_findFetch {sh : Shared} {p : ℕ} {fetchId : FetchId} {data : Json}
    (h : Safe rank hs (.findFetch p fetchId data)) :
    Brings rank hs (.findFetch p fetchId data)
      (codeOf (sh.findFetch p fetchId data).2 ++ [.unlock (.registry p .fetchers)]) := by
  obtain rfl := h
  refine Stands.unlock_after ?_
  unfold Shared.findFetch
  split
  · exact Stands.nil
  · split
    · exact Stands.nil
    · exact stands_callFetch (openRequestCbs_not_mem List.not_mem_nil)

theorem brings_findMethod {sh : Shared} {p : ℕ} {method : String}
    (h : Safe rank hs (.findMethod p method)) :
    Brings rank hs (.findMethod p method) (sh.findMethod p method) := by
  obtain rfl := h
  unfold Shared.findMethod
  split
  · exact Stands.nil.unlock_after
  · exact Stands.unlock_after (stands_serve (openRequestCbs_not_mem List.not_mem_nil))

theorem brings_findState {sh : Shared} {p : ℕ} {method : String} {data : Json}
    (h : Safe rank hs (.findState p method data)) :
    Brings rank hs (.findState p method data) (sh.findState p method data) := by
  obtain rfl := h
  unfold Shared.findState
  split
  · -- no state: the methods are locked with nothing held
    exact Stands.unlock ⟨⟨above_nil, rfl, trivial⟩, List.erase_cons_head ..⟩
  · split
    · exact Stands.nil.unlock_after
    · split
      · exact Stands.nil.unlock_after
      · exact Stands.unlock_after (stands_serve (openRequestCbs_not_mem List.not_mem_nil))

theorem brings_take {sh : Shared} {p : ℕ} {id : UInt32} {data : Json}
    (h : Safe rank hs (.take p id data)) :
    Brings rank hs (.take p id data)
      (.unlock .openRequestCbs :: codeOf (sh.complete p id data).2) := by
  obtain rfl := h
  refine Stands.unlock (Stands.flatMap fun f hf => ?_)
  unfold Shared.complete at hf
  split at hf
  · exact absurd hf List.not_mem_nil
  · obtain ⟨cl, -, rfl⟩ := List.mem_map.mp hf
    exact Stands.run (fun _ _ _ => above_nil) rfl

/-- What the user's part decides: `clear` finds add requests with a result
callback only for registries after `m_mtx_openRequestCbs`. -/
def CancelsAbove (rank : Mutex → β) (sh : Shared) : Prop :=
  ∀ d ∈ sh.requests.cancelled, d.1.callback ≠ none →
    ∀ i ∈ d.1.item, rank .openRequestCbs < rank (.registry d.1.peer i.part)

instance [DecidableLT β] (sh : Shared) : Decidable (CancelsAbove rank sh) :=
  inferInstanceAs (Decidable (∀ d ∈ sh.requests.cancelled, d.1.callback ≠ none →
    ∀ i ∈ d.1.item, rank .openRequestCbs < rank (.registry d.1.peer i.part)))

/-- The lambdas `clear` invokes under its lock. -/
theorem stands_cancelFrames {sh : Shared} {p : ℕ} {ids : List UInt32}
    (habove : MayTake rank hs .openRequestCbs) (h : CancelsAbove rank sh) :
    Stands rank (.openRequestCbs :: hs) (codeOf (sh.cancelFrames p ids)) := by
  refine Stands.flatMap fun f hf => ?_
  obtain ⟨id, -, hid⟩ := List.mem_filterMap.mp hf
  obtain ⟨cl, hcl, rfl⟩ := Option.map_eq_some_iff.mp hid
  refine Stands.run (fun hcb i hi => ?_) rfl
  -- the registry comes after `m_mtx_openRequestCbs`, and this after all that was held before
  have hlt : rank .openRequestCbs < rank (.registry cl.peer i.part) :=
    h _ (RequestTable.mem_cancelled.mpr ⟨id, hcl, rfl⟩) hcb i hi
  intro m hm
  rcases List.mem_cons.mp hm with rfl | hm
  · exact .inl hlt
  · rcases habove m hm with hlt' | ⟨-, hrec⟩
    · exact .inl (hlt'.trans hlt)
    · cases hrec

/-- The functions that do all their locking in `Frame.code`. -/
def Frame.IsPlain : Frame → Bool
  | .execute _ _ | .await _ _ _ | .invoke _ _ _ | .notify _ _ _ | .clearRequests _ => false
  | _ => true

theorem stands_turn {sh : Shared} {f : Frame} {ch : Choice} {r : Effect}
    (h : Shared.FrameTurn sh f ch r) (hplain : f.IsPlain = true)
    (hsafe : Safe rank hs (.frame f)) : Stands rank hs (codeOf r.2) := by
  cases h with
  | threw e => exact Stands.run trivial rfl
  | receive _ => exact hsafe.elim
  | connect p =>
      have hconfig : Stands rank hs (Frame.config p).code := Stands.run trivial rfl
      have hrestore : Stands rank hs (Frame.restore p).code :=
        Stands.scope hsafe (Stands.run trivial rfl)
      exact hconfig.append hrestore
  | config p => exact Stands.run trivial rfl
  | stop p destroy => exact stands_teardown hsafe
  | execute _ _ | await _ | fulfil _ | invoke _ | enter _ _ | visit _ _ | done _
  | clearRequests _ => cases hplain
  | _ => exact Stands.nil

theorem brings_execute {sh sh' : Shared} {cl : Closure} {doc : Json} {ch : Choice} {ops : Code}
    (hsafe : Safe rank hs (.frame (.execute cl doc)))
    (h : sh.goOnFrame (.execute cl doc) ch = some (sh', ops)) :
    Brings rank hs (.frame (.execute cl doc)) ops := by
  obtain ⟨hs', rfl, habove, hitem⟩ := hsafe
  obtain ⟨r, hrun, heq⟩ := Option.map_eq_some_iff.mp h
  obtain ⟨-, rfl⟩ := Prod.mk.inj heq
  refine Stands.unlock (Stands.flatMap fun f hf => ?_)
  cases Shared.run_turn hrun with
  | execute _ _ =>
      rcases List.mem_cons.mp hf with rfl | hf
      · exact Stands.run trivial rfl
      · rcases hcb : cl.callback with - | cb
        · simp only [hcb, List.mem_cons, List.not_mem_nil, or_false] at hf
          rcases hf with rfl | rfl
          · exact Stands.run (hitem hcb) rfl
          · exact Stands.scope habove (Stands.run trivial rfl)
        · simp [hcb] at hf

theorem brings_invoke {sh sh' : Shared} {cause : ℕ} {cl : Closure} {result : Json} {ch : Choice}
    {ops : Code} (hsafe : Safe rank hs (.frame (.invoke cause cl result)))
    (h : sh.goOnFrame (.invoke cause cl result) ch = some (sh', ops)) :
    Brings rank hs (.frame (.invoke cause cl result)) ops := by
  cases ch with
  | go =>
      simp only [Shared.goOnFrame] at h
      split at h
      · obtain ⟨-, rfl⟩ := Prod.mk.inj (Option.some.inj h)
        exact Stands.nil.brings rfl
      next cb hcb =>
        obtain ⟨-, rfl⟩ := Prod.mk.inj (Option.some.inj h)
        exact (stands_rollbackCode (hsafe (by simp [hcb]))).brings rfl
  | _ => cases h

theorem brings_notify {sh sh' : Shared} {p : ℕ} {todo : Option (List FetchId)}
    {visited : List FetchId} {ch : Choice} {ops : Code}
    (hsafe : Safe rank hs (.frame (.notify p todo visited)))
    (h : sh.goOnFrame (.notify p todo visited) ch = some (sh', ops)) :
    Brings rank hs (.frame (.notify p todo visited)) ops := by
  obtain ⟨hs', rfl, hfree⟩ := hsafe
  have hloop : ∀ {todo visited}, Brings rank (.registry p .fetchers :: hs')
      (.frame (.notify p todo visited)) [.run (.frame (.notify p todo visited))] :=
    ⟨⟨⟨hs', rfl, hfree⟩, trivial⟩, rfl⟩
  cases todo with
  | none =>
      obtain ⟨r, hrun, heq⟩ := Option.map_eq_some_iff.mp h
      obtain ⟨-, rfl⟩ := Prod.mk.inj heq
      cases Shared.run_turn hrun with
      | enter _ _ => exact ⟨⟨⟨hs', rfl, hfree⟩, trivial⟩, rfl⟩
  | some todo =>
      cases ch with
      | next fetchId =>
          -- the callback runs with the fetches locked, then the loop goes on
          obtain ⟨r, hrun, heq⟩ := Option.map_eq_some_iff.mp h
          obtain ⟨-, rfl⟩ := Prod.mk.inj heq
          cases Shared.run_turn hrun with
          | @visit _ _ _ _ fetcher _ _ =>
              have hcall : Stands rank (.registry p .fetchers :: hs')
                  (codeOf (Shared.callFetch p fetchId fetcher .null (-1)).2) :=
                stands_callFetch (openRequestCbs_not_mem hfree)
              rw [codeOf_append]
              refine ⟨?_, ?_⟩
              · rw [upward_append]
                exact ⟨hcall.upward, by rw [hcall.keeps]; exact hloop.1⟩
              · rw [heldAfter_append, hcall.keeps]
                exact hloop.2
      | done =>
          obtain ⟨r, hrun, heq⟩ := Option.map_eq_some_iff.mp h
          obtain ⟨-, rfl⟩ := Prod.mk.inj heq
          cases Shared.run_turn hrun with
          | done _ => exact Stands.nil.unlock_after
      | _ => cases h

theorem brings_clearRequests {sh sh' : Shared} {p : ℕ} {ch : Choice} {ops : Code}
    (hsafe : Safe rank hs (.frame (.clearRequests p))) (hcancel : CancelsAbove rank sh)
    (h : sh.goOnFrame (.clearRequests p) ch = some (sh', ops)) :
    Brings rank hs (.frame (.clearRequests p)) ops := by
  obtain ⟨hs', rfl, habove⟩ := hsafe
  obtain ⟨r, hrun, heq⟩ := Option.map_eq_some_iff.mp h
  obtain ⟨-, rfl⟩ := Prod.mk.inj heq
  cases Shared.run_turn hrun with
  | clearRequests _ => exact Stands.unlock_after (stands_cancelFrames habove hcancel)

/-- Frame by frame. -/
theorem brings_frame {sh sh' : Shared} {f : Frame} {ch : Choice} {ops : Code}
    (hsafe : Safe rank hs (.frame f))
    (hcancel : ∀ p, f = .clearRequests p → CancelsAbove rank sh)
    (h : sh.goOnFrame f ch = some (sh', ops)) : Brings rank hs (.frame f) ops := by
  cases f with
  | user => cases ch <;> cases h
  | execute cl doc => exact brings_execute hsafe h
  | await p item serial =>
      cases ch with
      | go =>
          obtain ⟨result, -, heq⟩ := Option.map_eq_some_iff.mp h
          obtain ⟨-, rfl⟩ := Prod.mk.inj heq
          exact (stands_rollbackCode hsafe).brings rfl
      | _ => cases h
  | invoke cause cl result => exact brings_invoke hsafe h
  | notify p todo visited => exact brings_notify hsafe h
  | clearRequests p => exact brings_clearRequests hsafe (hcancel p rfl) h
  | _ =>
      -- the locks are left alone
      obtain ⟨r, hrun, heq⟩ := Option.map_eq_some_iff.mp h
      obtain ⟨-, rfl⟩ := Prod.mk.inj heq
      exact (stands_turn (Shared.run_turn hrun) rfl hsafe).brings rfl

/-- What a step asks of the user's part: an operation called in a callback
takes only mutexes that come after those the thread holds, and so does what
`clear` finds to roll back. -/
def FitsOrder (rank : Mutex → β) (sh : Shared) (hs : List Mutex) : Instr → Move → Prop
  | .frame .user, .call call => ∀ m ∈ call.locks, MayTake rank hs m
  | .frame (.clearRequests _), _ => CancelsAbove rank sh
  | _, _ => True

/-- Within the critical sections there is one way to go on. -/
theorem eq_go_of_goOn {sh : Shared} {i : Instr} {mv : Move} {r : Shared × Code}
    (h : sh.goOn i mv = some r) (hidle : i ≠ .idle) (hframe : ∀ f, i ≠ .frame f) :
    mv = .go .go := by
  cases i with
  | idle => exact absurd rfl hidle
  | frame f => exact absurd rfl (hframe f)
  | _ =>
      cases mv with
      | go ch =>
          cases ch with
          | go => rfl
          | _ => cases h
      | _ => cases h

instance [DecidableLT β] (sh : Shared) (hs : List Mutex) :
    ∀ i mv, Decidable (FitsOrder rank sh hs i mv)
  | .frame .user, .call call => inferInstanceAs (Decidable (∀ m ∈ call.locks, MayTake rank hs m))
  | .frame (.clearRequests _), _ => inferInstanceAs (Decidable (CancelsAbove rank sh))
  | .frame .user, .go _ | .frame .user, .ret | .frame .user, .message _ _
  | .frame .user, .notifier _ _ _ => .isTrue trivial
  | .frame (.send _ _ _), _ | .frame (.execute _ _), _ | .frame (.install _ _ _), _
  | .frame (.await _ _ _), _ | .frame (.destroySync _ _), _ | .frame (.invoke _ _ _), _
  | .frame (.receive _), _ | .frame (.answer _), _ | .frame (.connect _), _
  | .frame (.config _), _ | .frame (.restore _), _ | .frame (.stop _ _), _
  | .frame (.notify _ _ _), _ | .frame (.clear _ _), _ => .isTrue trivial
  | .idle, _ | .changed _ _, _ | .take _ _ _, _ | .findFetch _ _ _, _ | .findState _ _ _, _
  | .findMethod _ _, _ => .isTrue trivial

/-- The spec of `goOn`. -/
theorem brings_goOn {sh sh' : Shared} {i : Instr} {mv : Move} {ops : Code}
    (hsafe : Safe rank hs i) (hfits : FitsOrder rank sh hs i mv)
    (h : sh.goOn i mv = some (sh', ops)) : Brings rank hs i ops := by
  -- user code and the event loop come back to where they were
  have hback : ∀ {i : Instr} {c : Code}, Stands rank hs c → Safe rank hs i → held i hs = hs →
      Brings rank hs i (c ++ [.run i]) := fun hc hi hheld =>
    (hc.append (Stands.run hi hheld)).brings hheld
  cases i with
  | idle =>
      obtain rfl := hsafe
      cases mv with
      | call call =>
          obtain ⟨-, rfl⟩ := Prod.mk.inj (Option.some.inj h)
          exact hback (stands_callCode fun _ _ => above_nil) rfl rfl
      | message p data =>
          obtain ⟨-, rfl⟩ := Prod.mk.inj (Option.some.inj h)
          exact hback stands_messageCode rfl rfl
      | notifier p id e =>
          obtain ⟨-, rfl⟩ := Prod.mk.inj (Option.some.inj h)
          exact hback stands_handleResultCode rfl rfl
      | _ => cases h
  | frame f =>
      have hgo : ∀ ch, sh.goOnFrame f ch = some (sh', ops) →
          (∀ p, f = .clearRequests p → CancelsAbove rank sh) → Brings rank hs (.frame f) ops :=
        fun ch h hcancel => brings_frame hsafe hcancel h
      cases f with
      | user =>
          cases mv with
          | call call =>
              obtain ⟨-, rfl⟩ := Prod.mk.inj (Option.some.inj h)
              exact hback (stands_callCode hfits) hsafe rfl
          | ret =>
              obtain ⟨-, rfl⟩ := Prod.mk.inj (Option.some.inj h)
              exact Stands.nil.brings rfl
          | go ch => exact hgo ch h fun p hp => nomatch hp
          | _ => cases h
      | clearRequests p =>
          cases mv with
          | go ch => exact hgo ch h fun _ _ => hfits
          | _ => cases h
      | _ =>
          cases mv with
          | go ch => exact hgo ch h fun p hp => nomatch hp
          | _ => cases h
  | changed p e =>
      obtain rfl := eq_go_of_goOn h (fun hi => nomatch hi) (fun f hf => nomatch hf)
      obtain ⟨-, rfl⟩ := Prod.mk.inj (Option.some.inj h)
      exact Stands.nil.brings rfl
  | take p id data =>
      obtain rfl := eq_go_of_goOn h (fun hi => nomatch hi) (fun f hf => nomatch hf)
      obtain ⟨-, rfl⟩ := Prod.mk.inj (Option.some.inj h)
      exact brings_take hsafe
  | findFetch p fetchId data =>
      obtain rfl := eq_go_of_goOn h (fun hi => nomatch hi) (fun f hf => nomatch hf)
      obtain ⟨-, rfl⟩ := Prod.mk.inj (Option.some.inj h)
      exact brings_findFetch hsafe
  | findState p method data =>
      obtain rfl := eq_go_of_goOn h (fun hi => nomatch hi) (fun f hf => nomatch hf)
      obtain ⟨-, rfl⟩ := Prod.mk.inj (Option.some.inj h)
      exact brings_findState hsafe
  | findMethod p method =>
      obtain rfl := eq_go_of_goOn h (fun hi => nomatch hi) (fun f hf => nomatch hf)
      obtain ⟨-, rfl⟩ := Prod.mk.inj (Option.some.inj h)
      exact brings_findMethod hsafe

end Order

/-! ### Runs -/

/-- What a turn asks of the user's part. -/
def KeepsOrder {β : Type*} [Preorder β] (rank : Mutex → β) (s : System Shared Mutex Instr)
    (a : ℕ × Move) : Prop :=
  ∀ th ∈ s.threads[a.1]?, ∀ i ∈ th.code.head?.bind Stmt.instr, FitsOrder rank s.shared th.held i a.2

/-- **Locks are taken in one order.**  In a run in which the operations that
callbacks call, and the rollbacks `clear` finds, take mutexes upwards, no
threads wait for each other in a cycle, and every thread has taken what it
holds upwards. -/
theorem no_lock_cycle {β : Type*} [Preorder β] {rank : Mutex → β} {sh : Shared} {n : ℕ}
    {as : List (ℕ × Move)} {t : System Shared Mutex Instr}
    (h : (lockMachine library).Run (KeepsOrder rank) (idleThreads sh n) as t) :
    ¬ t.Deadlocked library ∧ ∀ th ∈ t.threads, Ascending library rank th.held := by
  -- in the beginning nothing is held
  have hstart : ∀ {j m}, m ∉ (idleThreads sh n).heldBy j := by
    intro j m hm
    obtain ⟨th, hth, hheld⟩ := System.exists_of_mem_heldBy hm
    rw [List.eq_of_mem_replicate (List.mem_of_getElem? hth)] at hheld
    exact absurd hheld List.not_mem_nil
  have hord : (idleThreads sh n).Ordered library rank (Safe rank) held := by
    constructor
    · intro th hth
      rw [List.eq_of_mem_replicate hth]
      exact List.Pairwise.nil
    · intro th hth
      rw [List.eq_of_mem_replicate hth]
      exact ⟨rfl, trivial⟩
  refine run_not_deadlocked h hord (fun j k m hj => absurd hj hstart) ?_
  intro s a th i c shared ops hC hth hcode hrun hsafe
  exact brings_goOn hsafe (hC th hth i (by rw [hcode]; rfl)) hrun

instance {β : Type*} [Preorder β] [DecidableLT β] {rank : Mutex → β}
    (s : System Shared Mutex Instr) (a : ℕ × Move) : Decidable (KeepsOrder rank s a) :=
  inferInstanceAs (Decidable (∀ th ∈ s.threads[a.1]?, ∀ i ∈ th.code.head?.bind Stmt.instr,
    FitsOrder rank s.shared th.held i a.2))

/-- The order in which callbacks may issue requests. -/
def requestsLast : Mutex → ℕ
  | .openRequestCbs => 1
  | .registry _ _ => 0

/-- All peers are connected. -/
def connectedPeers : Shared where
  peers _ := { connected := true }

/-- Thread 0 adds a state of peer 0, with a result callback. -/
def addsState : List (ℕ × Move) :=
  [(0, .call (.add 0 .state "s" (.int 1) .null (some 5) (.callback 7))),
    (0, .go .go), (0, .go .go), (0, .go .go), (0, .go .go), (0, .go .go), (0, .go .go),
    (0, .go .go), (0, .go .go)]

/-- A request for the state has come; its callback is called. -/
def callsState : List (ℕ × Move) :=
  [(0, .message 0 (.object [("method", .string "s"), ("params", .object [("value", .int 2)])])),
    (0, .go .go), (0, .go .go)]

/-- The callback issues a request with a result callback. -/
def issuesRequest : List (ℕ × Move) :=
  [(0, .call (.request 0 "info" .null (.callback 8))), (0, .go .go)]

/-- A callback issues a request under the lock of the states. -/
theorem no_lock_cycle_dispatch :
    ∃ t, (lockMachine library).evalIn (KeepsOrder requestsLast) (idleThreads connectedPeers 2)
        (addsState ++ callsState ++ issuesRequest ++ [(0, .go .go)]) = some t ∧
      ¬ t.Deadlocked library ∧ ∀ th ∈ t.threads, Ascending library requestsLast th.held := by
  have hsome : ((lockMachine library).evalIn (KeepsOrder requestsLast)
      (idleThreads connectedPeers 2)
      (addsState ++ callsState ++ issuesRequest ++ [(0, .go .go)])).isSome := by
    decide +kernel
  obtain ⟨t, ht⟩ := Option.isSome_iff_exists.mp hsome
  exact ⟨t, ht, no_lock_cycle (Machine.Run.of_evalIn ht)⟩

/-- Thread 1 stops peer 1, up to the lambda that unregisters the state. -/
def stopsOther : List (ℕ × Move) :=
  [(1, .call (.stop 1)), (1, .go .go), (1, .go .go), (1, .go .go), (1, .go .done), (1, .go .go),
    (1, .go .go), (1, .go .go), (1, .go .go), (1, .go .go), (1, .go .go), (1, .go .go),
    (1, .go .go), (1, .go (.cancel [1])), (1, .go .go)]

/-- **Dispatch and `clear` wait for each other.**  A state callback runs with
the states of peer 0 locked and issues a request; `stop()` of peer 1 holds
`m_mtx_openRequestCbs` and rolls back the open add of that state. -/
theorem dispatch_and_clear_deadlock :
    ¬ ∀ (sh : Shared) (n : ℕ) (as : List (ℕ × Move)) (t : System Shared Mutex Instr),
      (lockMachine library).Run Machine.Always (idleThreads sh n) as t →
        ¬ t.Deadlocked library := by
  intro h
  have hcycle : ∃ t ∈ (lockMachine library).eval (idleThreads connectedPeers 2)
      (addsState ++ callsState ++ stopsOther ++ issuesRequest),
      t.WaitsFor library 0 1 ∧ t.WaitsFor library 1 0 := by
    decide +kernel
  obtain ⟨t, ht, h01, h10⟩ := hcycle
  exact h _ _ _ _ (Machine.Run.of_eval ht)
    ⟨0, Relation.TransGen.tail (.single h01) h10⟩

end JetPeer
