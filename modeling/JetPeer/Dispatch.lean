/-
JetPeer/Dispatch.lean

`PeerAsync::receiveCallback` and `PeerAsync::handleMessage`.

A message is dispatched in two parts.  `target` only reads: it follows the
type of the method and the lookups, and it is where the accessors of jsoncpp
may throw.  What the message is for decides the rest: a response goes to the
result callback kept for its id, a notification to the callback of its
fetch, a request to the callback of a state or a method, whose outcome is
turned into the telegrams of the answer.

User supplied functions are parameters.  They may do anything to the tables
and the open requests (`After`), also enter `start()` through `resume()`, and
end in any `Outcome`.
-/
import JetPeer.Receive
import JetPeer.Requests
import JetPeer.Sending

namespace JetPeer

/-! ### The peer and its surroundings -/

/-- The members of a peer `handleMessage` works on, with the table of open
requests. -/
structure Registry where
  tables : Tables := {}
  requests : RequestTable Callback := {}

/-- What a user supplied function leaves behind. -/
structure After where
  registry : Registry
  /-- It called `resume()`. -/
  resumed : Bool := false

/-- What is outside of the peer: jsoncpp's writer, the socket, and the user
supplied functions.  C++11 leaves open which side of
`response[RESULT] = iter->second(params)` is evaluated first. -/
structure Env where
  writeString : Json → List UInt8
  socketError : Json → Option String
  resultFirst : Bool
  stateCallback : Callback → Json → String → Registry → Outcome SetStateCbResult × After
  methodCallback : Callback → Json → Registry → Outcome Json × After
  fetchCallback : Callback → Json → Int → Registry → Outcome Unit × After
  responseCallback : Callback → Json → Registry → Outcome Unit × After

/-- Surroundings in which every callback returns and nothing changes. -/
def plainEnv : Env where
  writeString := Json.text
  socketError := fun _ => none
  resultFirst := true
  stateCallback := fun _ _ _ r => (.ok {}, { registry := r })
  methodCallback := fun _ _ r => (.ok .null, { registry := r })
  fetchCallback := fun _ _ _ r => (.ok (), { registry := r })
  responseCallback := fun _ _ r => (.ok (), { registry := r })

/-- A message that reached the one it is for.  An empty callback throws
instead of being called. -/
inductive Dispatched where
  | response (callback : Option Callback) (data : Json)
  | notification (fetchId : FetchId) (callback : Option Callback) (params : Json) (status : Int)
  | state (path : String) (callback : Option Callback) (value : Json) (returned : Bool)
  | method (path : String) (callback : Option Callback) (params : Json) (returned : Bool)

/-- A peer with two logs: the telegrams `handleMessage` sent, and what it
dispatched. -/
structure Peer where
  registry : Registry := {}
  sent : List Json := []
  dispatched : List Dispatched := []

namespace Peer

def after (s : Peer) (a : After) : Peer := { s with registry := a.registry }

def log (s : Peer) (d : Dispatched) : Peer := { s with dispatched := s.dispatched ++ [d] }

end Peer

/-- `sendMessage`. -/
def sendMessage (env : Env) (value : Json) (s : Peer) : Except JsonrpcException Peer := do
  let _ ← composeMessage env.writeString value
  match env.socketError value with
  | some text => .error ⟨-1, "could not send message: '" ++ text ++ "'"⟩
  | none => .ok { s with sent := s.sent ++ [value] }

/-- `sendMessage` where an exception is logged and nothing else. -/
def trySend (env : Env) (value : Json) (s : Peer) : Peer :=
  match sendMessage env value s with
  | .ok s => s
  | .error _ => s

/-! ### What a message is for -/

inductive Target where
  | response (id : UInt32)
  | fetch (fetchId : FetchId) (fetcher : Fetcher) (params : Json)
  | state (path : String) (callback : Option Callback) (value : Json)
  | method (path : String) (callback : Option Callback) (params : Json)
  /-- Nothing is called and nothing is answered. -/
  | nothing

/-- A notification: its method is the id of the fetch. -/
def fetchTarget (t : Tables) (data methodNode : Json) : Except LogicError Target :=
  methodNode.asInt.bind fun fetchId =>
    match t.fetchers.lookup fetchId with
    | some fetcher => (data.at Jsonrpc.params).map (.fetch fetchId fetcher)
    | none => .ok .nothing

/-- A request: states come before methods. -/
def requestTarget (t : Tables) (data : Json) (method : String) : Except LogicError Target :=
  match t.stateCallbacks.lookup method with
  | some callback =>
      ((data.at Jsonrpc.params).bind fun params => params.at Word.value).map fun value =>
        -- a request without a value is not answered either
        if value.isNull then .nothing else .state method callback value
  | none =>
      match t.methodCallbacks.lookup method with
      | some callback => (data.at Jsonrpc.params).map (.method method callback)
      | none => .ok .nothing

/-- The switch over the type of the method. -/
def nodeTarget (t : Tables) (data : Json) : Json → Except LogicError Target
  | .null => (responseId data).map .response
  | .int n => fetchTarget t data (.int n)
  | .string method => requestTarget t data method
  | _ => .ok .nothing

/-- The lookups of `handleMessage`, up to the first call of a user supplied
function. -/
def target (t : Tables) (data : Json) : Except LogicError Target :=
  (data.at Jsonrpc.method).bind (nodeTarget t data)

/-! ### Answers -/

/-- `sendata`: the notification of a changed value. -/
def changeNotification (path : String) (value : Json) : Json :=
  ((Json.null.set Jsonrpc.method (.string Word.change)).modify Jsonrpc.params fun p =>
    p.set Word.path (.string path)).modify Jsonrpc.params fun p => p.set Word.value value

/-- The response to a state callback that returned. -/
def successResponse (result : SetStateResult) : Json :=
  if result.code ≠ 0 then
    let response := Json.null.modify Jsonrpc.result fun r =>
      r.modify Word.warning fun w => w.set Jsonrpc.code (.int result.code)
    if result.message ≠ "" then
      response.modify Jsonrpc.result fun r =>
        r.modify Word.warning fun w => w.set Jsonrpc.message (.string result.message)
    else response
  else Json.null.set Jsonrpc.result (.object [])

/-- The four catch clauses, on a response that may have members already. -/
def catchLadder (response : Json) : Thrown → Json
  | .jsoncpprpc e => e.json
  | .jsonrpc e => withError response e.code e.message
  | .std what => withError response Jsonrpc.internalError what
  | .unknown => withError response Jsonrpc.internalError "caught exception!"

/-- The response to a read only state. -/
def readOnlyResponse : Json :=
  withError .null Jsonrpc.internalError "state is read only!"

/-- What is thrown by calling an empty `std::function`. -/
def badFunctionCall : Thrown := .std "bad_function_call"

/-- The response left by `response[RESULT] = iter->second(params)` and the
catch clauses behind it. -/
def methodResponse (resultFirst : Bool) : Outcome Json → Json
  | .ok v => Json.null.set Jsonrpc.result v
  | .error e => catchLadder (if resultFirst then Json.null.set Jsonrpc.result .null else .null) e

/-- The response to a request, if it has an id. -/
def respond (env : Env) (data response : Json) (s : Peer) : Peer :=
  let idNode := data.member Jsonrpc.id
  if idNode.isNull then s else trySend env (response.set Jsonrpc.id idNode) s

/-- The state branch. -/
def handleState (env : Env) (data : Json) (path : String) (callback : Option Callback)
    (value : Json) (s : Peer) : Peer × Bool :=
  match callback with
  | none => (respond env data readOnlyResponse (s.log (.state path none value false)), false)
  | some cb =>
      match env.stateCallback cb value path s.registry with
      | (.error e, a) =>
          (respond env data (catchLadder .null e)
            ((s.after a).log (.state path (some cb) value false)), a.resumed)
      | (.ok r, a) =>
          let s := (s.after a).log (.state path (some cb) value true)
          if r.value.isNull then (respond env data (successResponse r.result) s, a.resumed)
          else
            match sendMessage env (changeNotification path r.value) s with
            | .ok s => (respond env data (successResponse r.result) s, a.resumed)
            | .error e => (respond env data (catchLadder .null (.jsonrpc e)) s, a.resumed)

/-- The method branch. -/
def handleMethod (env : Env) (data : Json) (path : String) (callback : Option Callback)
    (params : Json) (s : Peer) : Peer × Bool :=
  match callback with
  | none =>
      (respond env data (methodResponse env.resultFirst (.error badFunctionCall))
        (s.log (.method path none params false)), false)
  | some cb =>
      let (outcome, a) := env.methodCallback cb params s.registry
      (respond env data (methodResponse env.resultFirst outcome)
        ((s.after a).log (.method path (some cb) params outcome.isOk)), a.resumed)

/-- The fetch branch; exceptions of the callback are logged. -/
def handleFetch (env : Env) (fetchId : FetchId) (fetcher : Fetcher) (params : Json) (s : Peer) :
    Peer × Bool :=
  let s := s.log (.notification fetchId fetcher.callback params 0)
  match fetcher.callback with
  | none => (s, false)
  | some cb =>
      let (_, a) := env.fetchCallback cb params 0 s.registry
      (s.after a, a.resumed)

/-- `handleResult` with the id already read. -/
def handleResponse (env : Env) (id : UInt32) (data : Json) (s : Peer) : Peer × Bool :=
  match s.registry.requests.take id with
  | none => (s, false)
  | some (r, requests) =>
      let s := { s with registry := { s.registry with requests := requests } }
      let s := s.log (.response r.responseCallback data)
      match r.responseCallback with
      | none => (s, false)
      | some cb =>
          let (_, a) := env.responseCallback cb data s.registry
          (s.after a, a.resumed)

/-! ### `handleMessage` and `receiveCallback` -/

/-- What is done with a message, by what it is for. -/
def dispatch (env : Env) (data : Json) (s : Peer) : Target → Peer × Bool
  | .response id => handleResponse env id data s
  | .fetch fetchId fetcher params => handleFetch env fetchId fetcher params s
  | .state path callback value => handleState env data path callback value s
  | .method path callback params => handleMethod env data path callback params s
  | .nothing => (s, false)

/-- `handleMessage`. -/
def handleMessage (env : Env) (data : Json) (s : Peer) : Peer × Handled :=
  match target s.registry.tables data with
  | .error _ => (s, ⟨true, false⟩)
  | .ok tgt =>
      let (s, resumed) := dispatch env data s tgt
      (s, ⟨false, resumed⟩)

/-- The elements of a batch; an exception ends it. -/
def handleBatch (env : Env) : List Json → Peer → Peer × Handled
  | [], s => (s, ⟨false, false⟩)
  | data :: batch, s =>
      let (s, h) := handleMessage env data s
      if h.threw then (s, h)
      else
        let (s, h') := handleBatch env batch s
        (s, ⟨h'.threw, h.restarted || h'.restarted⟩)

/-- The messages of a value. -/
def messages : Json → List Json
  | .array batch => batch
  | .object ms => [.object ms]
  | _ => []

/-- `receiveCallback`: a batch, a single message, or neither. -/
def receiveCallback (env : Env) (data : Json) (s : Peer) : Peer × Handled :=
  match data with
  | .array batch => handleBatch env batch s
  | .object ms => handleMessage env (.object ms) s
  | _ => (s, ⟨false, false⟩)

/-- The outcome of `m_reader->parse`; it gives up on values nested too
deeply with an exception. -/
inductive Parsed where
  | value (data : Json)
  | failed
  | threw
  deriving Inhabited

/-- The peer as `receive` sees it. -/
def peerSurroundings (env : Env) (parse : List UInt8 → Parsed) (stop : Peer → Peer × Bool) :
    Surroundings Peer where
  telegram s payload :=
    match parse payload with
    | .value data => receiveCallback env data s
    | .failed => (s, ⟨false, false⟩)
    | .threw => (s, ⟨true, false⟩)
  stop := stop

/-! ### Lemmas -/

/-- The params of a request are an object with a value. -/
def HasValue (data : Json) : Prop :=
  (∃ ms, data.member Jsonrpc.params = .object ms) ∧
    ((data.member Jsonrpc.params).member Word.value).isNull = false

/-- The params are null or an object, without a value. -/
def HasNoValue (data : Json) : Prop :=
  (data.member Jsonrpc.params = .null ∨ ∃ ms, data.member Jsonrpc.params = .object ms) ∧
    ((data.member Jsonrpc.params).member Word.value).isNull = true

section Lemmas

variable {env : Env} {data : Json} {s : Peer}

/-- Only null and objects have members. -/
theorem at_eq_ok {v : Json} (h : v = .null ∨ ∃ ms, v = .object ms) (key : String) :
    v.at key = .ok (v.member key) := by
  rcases h with rfl | ⟨ms, rfl⟩ <;> rfl

theorem at_eq_error {v : Json} (h : ¬ (v = .null ∨ ∃ ms, v = .object ms)) (key : String) :
    ∃ e, v.at key = .error e := by
  cases v with
  | null => exact absurd (.inl rfl) h
  | object ms => exact absurd (.inr ⟨ms, rfl⟩) h
  | _ => exact ⟨_, rfl⟩

theorem target_eq {t : Tables} (h : data = .null ∨ ∃ ms, data = .object ms) :
    target t data = nodeTarget t data (data.member Jsonrpc.method) := by
  rw [target, at_eq_ok h]
  rfl

/-- A request to a state reads the value first. -/
theorem requestTarget_state {t : Tables} {path : String} {callback : Option Callback}
    (h : data = .null ∨ ∃ ms, data = .object ms)
    (hs : t.stateCallbacks.lookup path = some callback) :
    requestTarget t data path = ((data.member Jsonrpc.params).at Word.value).map fun value =>
      if value.isNull then .nothing else .state path callback value := by
  simp only [requestTarget, hs, at_eq_ok h]
  rfl

theorem requestTarget_method {t : Tables} {path : String} {callback : Option Callback}
    (h : data = .null ∨ ∃ ms, data = .object ms) (hs : t.stateCallbacks.lookup path = none)
    (hm : t.methodCallbacks.lookup path = some callback) :
    requestTarget t data path = .ok (.method path callback (data.member Jsonrpc.params)) := by
  simp only [requestTarget, hs, hm, at_eq_ok h]
  rfl

/-- The three fates of a request to a state. -/
theorem requestTarget_state_cases {t : Tables} {path : String} {callback : Option Callback}
    (h : data = .null ∨ ∃ ms, data = .object ms)
    (hs : t.stateCallbacks.lookup path = some callback) :
    (HasValue data ∧ requestTarget t data path = .ok (.state path callback
        ((data.member Jsonrpc.params).member Word.value))) ∨
      (HasNoValue data ∧ requestTarget t data path = .ok .nothing) ∨
      (¬ HasValue data ∧ ¬ HasNoValue data ∧ ∃ e, requestTarget t data path = .error e) := by
  rw [requestTarget_state h hs]
  by_cases hparams : data.member Jsonrpc.params = .null ∨
    ∃ ms, data.member Jsonrpc.params = .object ms
  · rw [at_eq_ok hparams]
    by_cases hnull : ((data.member Jsonrpc.params).member Word.value).isNull = true
    · exact .inr (.inl ⟨⟨hparams, hnull⟩, congrArg Except.ok (if_pos hnull)⟩)
    · refine .inl ⟨⟨?_, Bool.eq_false_iff.mpr hnull⟩, congrArg Except.ok (if_neg hnull)⟩
      rcases hparams with hp | hp
      · exact absurd (by rw [hp]; rfl) hnull
      · exact hp
  · -- params that have no members: the accessor throws
    obtain ⟨e, he⟩ := at_eq_error hparams Word.value
    refine .inr (.inr ⟨fun hv => hparams (.inr hv.1), fun hv => hparams hv.1, e, ?_⟩)
    rw [he]
    rfl

/-- A request is for no fetch. -/
theorem requestTarget_ne_fetch {t : Tables} {path : String} {fetchId : FetchId}
    {fetcher : Fetcher} {params : Json} :
    requestTarget t data path ≠ .ok (.fetch fetchId fetcher params) := by
  intro h
  unfold requestTarget at h
  split at h
  next =>
    obtain ⟨value, -, h⟩ := map_eq_ok.mp h
    split_ifs at h
  next =>
    split at h
    next =>
      obtain ⟨params, -, h⟩ := map_eq_ok.mp h
      cases h
    next => cases h

/-- The fetch a notification is for is registered. -/
theorem lookup_of_target_fetch {t : Tables} {fetchId : FetchId} {fetcher : Fetcher}
    {params : Json} (h : target t data = .ok (.fetch fetchId fetcher params)) :
    t.fetchers.lookup fetchId = some fetcher := by
  obtain ⟨node, -, h⟩ := bind_eq_ok.mp h
  cases node with
  | null =>
      obtain ⟨id, -, h⟩ := map_eq_ok.mp h
      cases h
  | int n =>
      obtain ⟨i, -, h⟩ := bind_eq_ok.mp h
      split at h
      next f hf =>
        obtain ⟨params, -, h⟩ := map_eq_ok.mp h
        cases h
        exact hf
      next => cases h
  | string path => exact absurd h requestTarget_ne_fetch
  | _ => cases h

theorem HasValue.not_hasNoValue (h : HasValue data) : ¬ HasNoValue data := by
  rintro ⟨-, hno⟩
  rw [h.2] at hno
  cases hno

theorem handleMessage_of_error {e : LogicError} (h : target s.registry.tables data = .error e) :
    handleMessage env data s = (s, ⟨true, false⟩) := by
  simp [handleMessage, h]

theorem handleMessage_of_ok {tgt : Target} (h : target s.registry.tables data = .ok tgt) :
    handleMessage env data s
      = ((dispatch env data s tgt).1, ⟨false, (dispatch env data s tgt).2⟩) := by
  simp [handleMessage, h]

/-- A single message is a batch of one. -/
theorem handleBatch_singleton : handleBatch env [data] s = handleMessage env data s := by
  rcases h : handleMessage env data s with ⟨u, ⟨threw, restarted⟩⟩
  cases threw <;> simp [handleBatch, h]

theorem receiveCallback_eq :
    receiveCallback env data s = handleBatch env (messages data) s := by
  cases data with
  | object ms => exact handleBatch_singleton.symm
  | _ => rfl

/-- A telegram that fits is sent where the socket takes it. -/
theorem sendMessage_eq_ok (hs : env.socketError data = none)
    (hlen : (env.writeString data).length ≤ maxMessageSize) :
    sendMessage env data s = .ok { s with sent := s.sent ++ [data] } := by
  have hc : composeMessage env.writeString data
      = .ok (lengthHeader.frame (env.writeString data)) :=
    composeMessage_eq_ok.mpr ⟨hlen, rfl⟩
  simp only [sendMessage, hc, hs]
  rfl

/-- All a successful send does. -/
theorem eq_of_sendMessage_ok {t : Peer} (h : sendMessage env data s = .ok t) :
    t = { s with sent := s.sent ++ [data] } := by
  rcases hc : composeMessage env.writeString data with e | frame <;>
    rcases hs : env.socketError data with - | text <;>
    simp only [sendMessage, hc, hs] at h <;> cases h
  rfl

/-- A telegram that is too long is not sent. -/
theorem sendMessage_eq_error (hlen : maxMessageSize < (env.writeString data).length) :
    sendMessage env data s = .error ⟨-1, oversizeText (env.writeString data).length⟩ := by
  have hc : composeMessage env.writeString data
      = .error ⟨-1, oversizeText (env.writeString data).length⟩ := if_pos hlen
  simp only [sendMessage, hc]
  rfl

/-- A telegram that is too long, or that the socket refuses, is not sent. -/
theorem sendMessage_not_accepted (h : ¬ ((env.writeString data).length ≤ maxMessageSize ∧
    env.socketError data = none)) : ∃ e, sendMessage env data s = .error e := by
  by_cases hlen : (env.writeString data).length ≤ maxMessageSize
  · rcases hs : env.socketError data with - | text
    · exact absurd ⟨hlen, hs⟩ h
    · have hc : composeMessage env.writeString data
          = .ok (lengthHeader.frame (env.writeString data)) :=
        composeMessage_eq_ok.mpr ⟨hlen, rfl⟩
      simp only [sendMessage, hc, hs]
      exact ⟨_, rfl⟩
  · exact ⟨_, sendMessage_eq_error (Nat.not_le.mp hlen)⟩

/-! ### Responding -/

theorem respond_null (hid : (data.member Jsonrpc.id).isNull = true) (response : Json) :
    respond env data response s = s := if_pos hid

theorem respond_some (hid : ¬ (data.member Jsonrpc.id).isNull = true) (response : Json) :
    respond env data response s =
      trySend env (response.set Jsonrpc.id (data.member Jsonrpc.id)) s := if_neg hid

/-- A response is sent, or it is as if there were none. -/
theorem respond_cases (response : Json) : respond env data response s = s ∨
    respond env data response s =
      { s with sent := s.sent ++ [response.set Jsonrpc.id (data.member Jsonrpc.id)] } := by
  by_cases hid : (data.member Jsonrpc.id).isNull = true
  · exact .inl (respond_null hid response)
  · rw [respond_some hid, trySend]
    rcases hsend : sendMessage env (response.set Jsonrpc.id (data.member Jsonrpc.id)) s with e | t
    · exact .inl rfl
    · exact .inr (eq_of_sendMessage_ok hsend)

theorem respond_dispatched (env : Env) (data response : Json) (s : Peer) :
    (respond env data response s).dispatched = s.dispatched := by
  rcases respond_cases response with h | h <;> rw [h]

end Lemmas

end JetPeer
