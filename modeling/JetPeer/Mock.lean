/-
JetPeer/Mock.lean

`include/jet/peerasyncmock.hpp`: `PeerAsyncMock`, which calls the callbacks of
states and methods itself, without a daemon.

The mock builds its responses in code of its own, so what a test sees and what
a peer would have sent are two documents.  Both sides here have the same
history of adds and removes, and then get the same request:

    addStateAsync, …    PeerAsyncMock.run    peerTables
    set, call           MockRequest.onMock   handleMessage

`registeredBoth_run` says that the same callback is there on both sides.

`handleMessage` catches whatever a callback throws and answers a read only
state with an error.  The mock has neither, so the documents agree if and
only if the callback is there and returns, and for a state the notification
of the change is sent (`mock_answers_iff`).
-/
import JetPeer.OwnerRole
import JetPeer.RemoteCalls
import JetPeer.Registration

namespace JetPeer

open Maps

/-! ### The mock -/

structure MockedState where
  stateCallback : Option Callback := none
  value : Json := .null

/-- `m_states`, `m_methods` and `id`. -/
structure PeerAsyncMock where
  states : AList fun _ : String => MockedState := ∅
  methods : AList fun _ : String => Option Callback := ∅
  id : UInt32 := 0

/-- How the callbacks of states and methods end; they do not use the mock. -/
structure MockEnv where
  stateCallback : Callback → Json → String → Outcome SetStateCbResult
  methodCallback : Callback → Json → Outcome Json

/-- What an operation of the mock leaves behind. -/
structure MockEnding where
  mock : PeerAsyncMock
  /-- The calls of the result callback. -/
  invoked : List (Callback × Json) := []
  /-- The exception that leaves the operation. -/
  escaped : Option Thrown := none

namespace PeerAsyncMock

variable (m : PeerAsyncMock)

/-- The result of an add: `++id`, and nothing else in it. -/
def added : Option Callback → MockEnding
  | none => { mock := m }
  | some resultCallback =>
      { mock := { m with id := m.id + 1 }
        invoked := [(resultCallback,
          (Json.null.set Jsonrpc.id (.uint (m.id + 1).toNat)).set Jsonrpc.result (.object []))] }

def addStateAsync (path : String) (value : Json) (resultCallback callback : Option Callback) :
    MockEnding :=
  added { m with states := m.states.insert path ⟨callback, value⟩ } resultCallback

def addMethodAsync (path : String) (resultCallback callback : Option Callback) : MockEnding :=
  added { m with methods := m.methods.insert path callback } resultCallback

/-- An empty path is not left out. -/
def removeStateAsync (path : String) : MockEnding :=
  { mock := { m with states := m.states.erase path } }

def removeMethodAsync (path : String) : MockEnding :=
  { mock := { m with methods := m.methods.erase path } }

/-- The response to a callback that returned. -/
def setResponse (result : SetStateResult) : Json :=
  if result.code ≠ 0 then
    let response := Json.null.modify Jsonrpc.result fun r =>
      r.modify Word.warning fun w => w.set Jsonrpc.code (.int result.code)
    if result.message ≠ "" then
      response.modify Jsonrpc.result fun r =>
        r.modify Word.warning fun w => w.set Jsonrpc.message (.string result.message)
    else response
  else Json.null.set Jsonrpc.result (.object [])

/-- The value stored is the one requested, and only if somebody wants the
result. -/
def setStateValueAsync (env : MockEnv) (path : String) (value : Json)
    (resultCallback : Option Callback) : MockEnding :=
  -- `m_states[path]` makes an entry where there is none
  let entry := (m.states.lookup path).getD {}
  let m := { m with states := m.states.insert path entry }
  match entry.stateCallback with
  | none => { mock := m, escaped := some badFunctionCall }
  | some callback =>
      match env.stateCallback callback value path with
      | .error e => { mock := m, escaped := some e }
      | .ok cbResult =>
          match resultCallback with
          | none => { mock := m }
          | some resultCallback =>
              { mock := { m with states := m.states.insert path { entry with value := value } }
                invoked := [(resultCallback, setResponse cbResult.result)] }

def callMethodAsync (env : MockEnv) (path : String) (args : Json)
    (resultCallback : Option Callback) : MockEnding :=
  let entry := (m.methods.lookup path).getD none
  let m := { m with methods := m.methods.insert path entry }
  match entry with
  | none => { mock := m, escaped := some badFunctionCall }
  | some callback =>
      match env.methodCallback callback args with
      | .error e => { mock := m, escaped := some e }
      | .ok v =>
          { mock := m
            invoked := resultCallback.toList.map fun cb => (cb, Json.null.set Jsonrpc.result v) }

end PeerAsyncMock

/-! ### The same history on both sides -/

inductive MockOp where
  | addState (path : String) (value : Json) (resultCallback callback : Option Callback)
  | addMethod (path : String) (resultCallback callback : Option Callback)
  | removeState (path : String)
  | removeMethod (path : String)

namespace MockOp

def onMock (m : PeerAsyncMock) : MockOp → MockEnding
  | .addState path value resultCallback callback =>
      m.addStateAsync path value resultCallback callback
  | .addMethod path resultCallback callback => m.addMethodAsync path resultCallback callback
  | .removeState path => m.removeStateAsync path
  | .removeMethod path => m.removeMethodAsync path

/-- The registries of a peer, with a daemon that accepts. -/
def onTables (t : Tables) : MockOp → Tables
  | .addState path _ _ callback => t.registerState path callback
  | .addMethod path _ callback => t.registerMethod path callback
  | .removeState path => if path = "" then t else t.unregisterState path
  | .removeMethod path => if path = "" then t else t.unregisterMethod path

end MockOp

/-- The mock after some operations, in the order of the list. -/
def PeerAsyncMock.run (ops : List MockOp) : PeerAsyncMock :=
  ops.foldl (fun m op => (op.onMock m).mock) {}

def peerTables (ops : List MockOp) : Tables := ops.foldl MockOp.onTables {}

/-- What the mock has registered the peer has registered too. -/
structure RegisteredBoth (m : PeerAsyncMock) (t : Tables) : Prop where
  states : Follows MockedState.stateCallback m.states t.stateCallbacks
  methods : Follows id m.methods t.methodCallbacks

section History

variable {m : PeerAsyncMock} {t : Tables}

@[simp] theorem states_added (resultCallback : Option Callback) :
    (m.added resultCallback).mock.states = m.states := by
  cases resultCallback <;> rfl

@[simp] theorem methods_added (resultCallback : Option Callback) :
    (m.added resultCallback).mock.methods = m.methods := by
  cases resultCallback <;> rfl

theorem RegisteredBoth.step (h : RegisteredBoth m t) (op : MockOp) :
    RegisteredBoth (op.onMock m).mock (op.onTables t) := by
  cases op with
  | addState path value resultCallback callback =>
      refine ⟨?_, ?_⟩
      · rw [MockOp.onMock, PeerAsyncMock.addStateAsync, states_added]
        exact h.states.insert path ⟨callback, value⟩
      · rw [MockOp.onMock, PeerAsyncMock.addStateAsync, methods_added]
        exact h.methods
  | addMethod path resultCallback callback =>
      refine ⟨?_, ?_⟩
      · rw [MockOp.onMock, PeerAsyncMock.addMethodAsync, states_added]
        exact h.states
      · rw [MockOp.onMock, PeerAsyncMock.addMethodAsync, methods_added]
        exact h.methods.insert path callback
  | removeState path =>
      -- with an empty path the mock removes and the peer does not
      simp only [MockOp.onTables]
      split_ifs
      · exact ⟨h.states.erase_left path, h.methods⟩
      · exact ⟨h.states.erase path, h.methods⟩
  | removeMethod path =>
      simp only [MockOp.onTables]
      split_ifs
      · exact ⟨h.states, h.methods.erase_left path⟩
      · exact ⟨h.states, h.methods.erase path⟩

theorem RegisteredBoth.run (h : RegisteredBoth m t) (ops : List MockOp) :
    RegisteredBoth (ops.foldl (fun m op => (op.onMock m).mock) m)
      (ops.foldl MockOp.onTables t) := by
  induction ops generalizing m t with
  | nil => exact h
  | cons op ops ih => exact ih (h.step op)

/-- **The peer has every callback the mock has**, after any history. -/
theorem registeredBoth_run (ops : List MockOp) :
    RegisteredBoth (PeerAsyncMock.run ops) (peerTables ops) := by
  have hempty : RegisteredBoth {} {} := ⟨follows_empty _ _, follows_empty _ _⟩
  exact hempty.run ops

end History

/-! ### The same request to both -/

/-- An operation of the mock that is a request on the peer. -/
inductive MockRequest where
  | set (path : String) (value : Json)
  | call (path : String) (args : Json)

namespace MockRequest

def onMock (env : MockEnv) (m : PeerAsyncMock) (resultCallback : Option Callback) :
    MockRequest → MockEnding
  | .set path value => m.setStateValueAsync env path value resultCallback
  | .call path args => m.callMethodAsync env path args resultCallback

/-- What the mock has registered for it, if anything. -/
def registered (m : PeerAsyncMock) : MockRequest → Option (Option Callback)
  | .set path _ => (m.states.lookup path).map MockedState.stateCallback
  | .call path _ => m.methods.lookup path

/-- What `handleMessage` finds it is for, if the peer has registered the same. -/
def target (callback : Option Callback) : MockRequest → Target
  | .set path value => .state path callback value
  | .call path args => .method path callback args

/-- `data` is the request as the owner gets it.  `handleMessage` looks for
states before it looks for methods. -/
def SentAs (t : Tables) (data : Json) : MockRequest → Prop
  | .set path value => data.member Jsonrpc.method = .string path ∧ HasValue data ∧
      (data.member Jsonrpc.params).member Word.value = value
  | .call path args => data.member Jsonrpc.method = .string path ∧
      data.member Jsonrpc.params = args ∧ path ∉ t.stateCallbacks

/-- What the mock has to hand to the result callback. -/
def answer (env : MockEnv) (callback : Option Callback) : MockRequest → Outcome Json
  | .set path value =>
      match callback with
      | none => .error badFunctionCall
      | some cb =>
          (env.stateCallback cb value path).map fun r => PeerAsyncMock.setResponse r.result
  | .call _ args =>
      match callback with
      | none => .error badFunctionCall
      | some cb => (env.methodCallback cb args).map fun v => Json.null.set Jsonrpc.result v

/-- The callback ends on the peer as it does on the mock. -/
def SameOutcome (menv : MockEnv) (env : Env) (r : Registry) (callback : Callback) :
    MockRequest → Prop
  | .set path value => (env.stateCallback callback value path r).1
      = menv.stateCallback callback value path
  | .call _ args => (env.methodCallback callback args r).1 = menv.methodCallback callback args

end MockRequest

/-- The response `handleMessage` builds to a request to a state. -/
def stateResponse (env : Env) (path : String) (callback : Option Callback) (value : Json)
    (s : Peer) : Json :=
  match callback with
  | none => readOnlyResponse
  | some cb =>
      match env.stateCallback cb value path s.registry with
      | (.error e, _) => catchLadder .null e
      | (.ok r, a) =>
          if r.value.isNull then successResponse r.result
          else
            match sendMessage env (changeNotification path r.value)
              ((s.after a).log (.state path (some cb) value true)) with
            | .ok _ => successResponse r.result
            | .error e => catchLadder .null (.jsonrpc e)

/-- The response `handleMessage` builds, without the id. -/
def builtResponse (env : Env) (s : Peer) : Target → Json
  | .state path callback value => stateResponse env path callback value s
  | .method _ none _ => methodResponse env.resultFirst (.error badFunctionCall)
  | .method _ (some cb) params =>
      methodResponse env.resultFirst (env.methodCallback cb params s.registry).1
  | _ => .null

section Requests

variable {env : Env} {s : Peer} {data : Json}

theorem handleState_built (path : String) (callback : Option Callback) (value : Json) :
    ∃ u, (handleState env data path callback value s).1
      = respond env data (stateResponse env path callback value s) u := by
  cases callback with
  | none => exact ⟨_, rfl⟩
  | some cb =>
      rcases ho : env.stateCallback cb value path s.registry with ⟨e | r, a⟩
      · simp only [handleState, stateResponse, ho]
        exact ⟨_, rfl⟩
      · simp only [handleState, stateResponse, ho]
        split_ifs
        · exact ⟨_, rfl⟩
        · rcases sendMessage env (changeNotification path r.value)
            ((s.after a).log (.state path (some cb) value true)) with e | u
          · exact ⟨_, rfl⟩
          · exact ⟨_, rfl⟩

/-- **The response built is the one `handleMessage` responds with.** -/
theorem handleMessage_built {callback : Option Callback} {r : MockRequest}
    (h : target s.registry.tables data = .ok (r.target callback)) :
    ∃ u, (handleMessage env data s).1
      = respond env data (builtResponse env s (r.target callback)) u := by
  rw [handleMessage_of_ok h]
  cases r with
  | set path value => exact handleState_built path callback value
  | call path args =>
      cases callback with
      | none => exact ⟨_, rfl⟩
      | some cb => exact ⟨_, rfl⟩

/-- A peer with the history of the mock finds the same callback for the
request. -/
theorem target_of_history {ops : List MockOp} {r : MockRequest} {callback : Option Callback}
    (hdata : ∃ ms, data = .object ms)
    (hregistered : r.registered (PeerAsyncMock.run ops) = some callback)
    (hrequest : r.SentAs (peerTables ops) data) :
    target (peerTables ops) data = .ok (r.target callback) := by
  have hboth := registeredBoth_run ops
  rw [target_eq (.inr hdata)]
  cases r with
  | set path value =>
      obtain ⟨hmethod, hvalue, rfl⟩ := hrequest
      obtain ⟨e, he, rfl⟩ := Option.map_eq_some_iff.mp hregistered
      rw [hmethod]
      show requestTarget (peerTables ops) data path = _
      rcases requestTarget_state_cases (.inr hdata) (hboth.states path e he) with
        ⟨-, ht⟩ | ⟨hno, -⟩ | ⟨hno, -⟩
      · exact ht
      · exact absurd hno hvalue.not_hasNoValue
      · exact absurd hvalue hno
  | call path args =>
      obtain ⟨hmethod, rfl, hstate⟩ := hrequest
      rw [hmethod]
      exact requestTarget_method (.inr hdata) (AList.lookup_eq_none.mpr hstate)
        (hboth.methods path callback hregistered)

/-! ### The mock answers like the peer -/

/-- The same result and the same error, or neither. -/
def SameAnswer (doc body : Json) : Prop :=
  (doc.isMember Jsonrpc.result = body.isMember Jsonrpc.result ∧
      doc.member Jsonrpc.result = body.member Jsonrpc.result) ∧
    (doc.isMember Jsonrpc.err = body.isMember Jsonrpc.err ∧
      doc.member Jsonrpc.err = body.member Jsonrpc.err)

/-- The result callback is invoked once, with the answer of the peer, and
nothing is thrown. -/
def AnswersLike (ending : MockEnding) (resultCallback : Callback) (body : Json) : Prop :=
  ending.escaped = none ∧
    ∃ doc, ending.invoked = [(resultCallback, doc)] ∧ SameAnswer doc body

/-- The callback is there and returns, and the peer can notify the change. -/
def Succeeds (menv : MockEnv) (env : Env) (callback : Option Callback) : MockRequest → Prop
  | .set path value => ∃ cb r, callback = some cb ∧ menv.stateCallback cb value path = .ok r ∧
      ChangeAccepted env path r.value
  | .call _ args => ∃ cb v, callback = some cb ∧ menv.methodCallback cb args = .ok v

/-- The response to a callback that returned. -/
theorem stateResponse_of_ok {path : String} {cb : Callback} {value : Json} {r : SetStateCbResult}
    (h : (env.stateCallback cb value path s.registry).1 = .ok r) :
    (ChangeAccepted env path r.value ∧
        stateResponse env path (some cb) value s = successResponse r.result) ∨
      (¬ ChangeAccepted env path r.value ∧
        ∃ e, stateResponse env path (some cb) value s = catchLadder .null e) := by
  rcases ho : env.stateCallback cb value path s.registry with ⟨outcome, a⟩
  rw [ho] at h
  obtain rfl : outcome = .ok r := h
  simp only [stateResponse, ho]
  by_cases hnull : r.value.isNull = true
  · rw [if_pos hnull]
    exact .inl ⟨.inl hnull, rfl⟩
  · rw [if_neg hnull]
    by_cases hacc : Fits env (changeNotification path r.value) ∧
      env.socketError (changeNotification path r.value) = none
    · rw [sendMessage_eq_ok hacc.2 hacc.1]
      exact .inl ⟨.inr hacc, rfl⟩
    · obtain ⟨e, he⟩ := sendMessage_not_accepted
        (s := (s.after a).log (.state path (some cb) value true)) hacc
      rw [he]
      exact .inr ⟨fun h => h.elim hnull hacc, .jsonrpc e, rfl⟩

/-- All that is seen of a request to the mock. -/
theorem onMock_ending {m : PeerAsyncMock} {r : MockRequest} {callback : Option Callback}
    (h : r.registered m = some callback) (menv : MockEnv) (resultCallback : Callback) :
    match r.answer menv callback with
    | .ok doc => (r.onMock menv m (some resultCallback)).escaped = none ∧
        (r.onMock menv m (some resultCallback)).invoked = [(resultCallback, doc)]
    | .error e => (r.onMock menv m (some resultCallback)).escaped = some e := by
  cases r with
  | set path value =>
      obtain ⟨e, he, rfl⟩ := Option.map_eq_some_iff.mp h
      simp only [MockRequest.onMock, PeerAsyncMock.setStateValueAsync, he, Option.getD_some,
        MockRequest.answer]
      rcases e.stateCallback with - | cb
      · rfl
      · rcases ho : menv.stateCallback cb value path with t | result
        · simp only [ho, Except.map]
        · simp only [ho, Except.map]
          exact ⟨trivial, trivial⟩
  | call path args =>
      have hm : m.methods.lookup path = some callback := h
      simp only [MockRequest.onMock, PeerAsyncMock.callMethodAsync, hm, Option.getD_some,
        MockRequest.answer]
      rcases callback with - | cb
      · rfl
      · rcases ho : menv.methodCallback cb args with t | v
        · simp only [ho, Except.map]
        · simp only [ho, Except.map]
          exact ⟨trivial, rfl⟩

/-- The mock answers if and only if the callback returned. -/
theorem answersLike_iff {m : PeerAsyncMock} {menv : MockEnv} {r : MockRequest}
    {callback : Option Callback} (h : r.registered m = some callback) {resultCallback : Callback}
    {body : Json} :
    AnswersLike (r.onMock menv m (some resultCallback)) resultCallback body ↔
      ∃ doc, r.answer menv callback = .ok doc ∧ SameAnswer doc body := by
  have hending := onMock_ending h menv resultCallback
  rcases ha : r.answer menv callback with e | doc
  · rw [ha] at hending
    constructor
    · rintro ⟨hescaped, -⟩
      cases hescaped.symm.trans hending
    · rintro ⟨doc, hdoc, -⟩
      cases hdoc
  · rw [ha] at hending
    obtain ⟨hescaped, hinvoked⟩ := hending
    constructor
    · rintro ⟨-, doc', hdoc', hsame⟩
      rw [hinvoked] at hdoc'
      cases hdoc'
      exact ⟨doc, rfl, hsame⟩
    · rintro ⟨doc', hdoc', hsame⟩
      cases hdoc'
      exact ⟨hescaped, doc, hinvoked, hsame⟩

/-- A success and an error are different answers. -/
theorem not_sameAnswer_catchLadder (result : SetStateResult) (e : Thrown) :
    ¬ SameAnswer (successResponse result) (catchLadder .null e) := by
  intro h
  have hok := (hasResult_successResponse result).2
  have herr := (hasResult_catchLadder e).2
  exact absurd (hok.symm.trans (h.2.1.trans herr)) (by simp)

/-- **The mock answers like the peer** if and only if the callback is there and
returns, and the change it makes can be notified. -/
theorem mock_answers_iff {ops : List MockOp} {r : MockRequest} {callback : Option Callback}
    {menv : MockEnv} (hregistered : r.registered (PeerAsyncMock.run ops) = some callback)
    (htarget : target s.registry.tables data = .ok (r.target callback))
    (houtcome : ∀ cb, callback = some cb → r.SameOutcome menv env s.registry cb)
    (resultCallback : Callback) :
    AnswersLike (r.onMock menv (PeerAsyncMock.run ops) (some resultCallback)) resultCallback
        (builtResponse env s (r.target callback)) ↔
      Succeeds menv env callback r := by
  rw [answersLike_iff hregistered]
  cases r with
  | set path value =>
      constructor
      · rintro ⟨doc, hdoc, hsame⟩
        obtain ⟨cb, rfl⟩ : ∃ cb, callback = some cb := by
          cases callback with
          | none => cases hdoc
          | some cb => exact ⟨cb, rfl⟩
        obtain ⟨r, hr, rfl⟩ := map_eq_ok.mp hdoc
        refine ⟨cb, r, rfl, hr, ?_⟩
        rcases stateResponse_of_ok ((houtcome cb rfl).trans hr) with ⟨hacc, -⟩ | ⟨-, e, he⟩
        · exact hacc
        · -- the peer answers with the error of the notification
          have hsame : SameAnswer (successResponse r.result) (stateResponse env path (some cb)
            value s) := hsame
          rw [he] at hsame
          exact absurd hsame (not_sameAnswer_catchLadder _ _)
      · rintro ⟨cb, r, rfl, hr, hacc⟩
        refine ⟨successResponse r.result, map_eq_ok.mpr ⟨r, hr, rfl⟩, ?_⟩
        show SameAnswer _ (stateResponse env path (some cb) value s)
        rcases stateResponse_of_ok ((houtcome cb rfl).trans hr) with ⟨-, he⟩ | ⟨hno, -⟩
        · rw [he]
          exact ⟨⟨rfl, rfl⟩, rfl, rfl⟩
        · exact absurd hacc hno
  | call path args =>
      constructor
      · rintro ⟨doc, hdoc, -⟩
        cases callback with
        | none => cases hdoc
        | some cb =>
            obtain ⟨v, hv, -⟩ := map_eq_ok.mp hdoc
            exact ⟨cb, v, rfl, hv⟩
      · rintro ⟨cb, v, rfl, hv⟩
        refine ⟨Json.null.set Jsonrpc.result v, map_eq_ok.mpr ⟨v, hv, rfl⟩, ?_⟩
        show SameAnswer _ (methodResponse env.resultFirst
          (env.methodCallback cb args s.registry).1)
        rw [(houtcome cb rfl).trans hv]
        exact ⟨⟨rfl, rfl⟩, rfl, rfl⟩

end Requests

/-! ### A state and a method -/

/-- A state whose callback returns, on the mock and on a peer. -/
def plainMock : MockEnv where
  stateCallback := fun _ _ _ => .ok {}
  methodCallback := fun _ _ => .ok .null

theorem mock_answers_iff_set :
    AnswersLike ((MockRequest.set "p" (.bool true)).onMock plainMock
        (PeerAsyncMock.run [.addState "p" (.int 1) none (some 0)]) (some 7)) 7
      (builtResponse plainEnv servingPeer (.state "p" (some 0) (.bool true))) := by
  have hregistered : (MockRequest.set "p" (.bool true)).registered
      (PeerAsyncMock.run [.addState "p" (.int 1) none (some 0)]) = some (some 0) := rfl
  have htarget : target servingPeer.registry.tables (setRequest [("value", .bool true)])
      = .ok ((MockRequest.set "p" (.bool true)).target (some 0)) := rfl
  have houtcome : ∀ cb, some 0 = some cb → (MockRequest.set "p" (.bool true)).SameOutcome
      plainMock plainEnv servingPeer.registry cb := fun _ _ => rfl
  exact (mock_answers_iff hregistered htarget houtcome 7).mpr ⟨0, {}, rfl, rfl, .inl rfl⟩

/-- A method that throws: the peer answers with an error, out of the mock
comes the exception. -/
theorem mock_lets_exception_through :
    ¬ ∀ (ops : List MockOp) (r : MockRequest) (callback : Option Callback) (menv : MockEnv)
      (env : Env) (s : Peer) (data : Json) (resultCallback : Callback),
      r.registered (PeerAsyncMock.run ops) = some callback →
      target s.registry.tables data = .ok (r.target callback) →
      (∀ cb, callback = some cb → r.SameOutcome menv env s.registry cb) →
      AnswersLike (r.onMock menv (PeerAsyncMock.run ops) (some resultCallback)) resultCallback
        (builtResponse env s (r.target callback)) := by
  intro h
  have hanswers := h [.addMethod "m" none (some 0)] (.call "m" .null) (some 0)
    { plainMock with methodCallback := fun _ _ => .error (.std "bad") } throwingEnv throwingPeer
    methodRequest 7 rfl rfl (fun _ _ => rfl)
  cases hanswers.1

end JetPeer
