/-
JetPeer/OwnerRole.lean

What a peer sends for a request to a path it owns.

`Due.telegrams` is the protocol: the documents are written out, and they follow from
the request, the entry of the path and the outcome of its callback alone.  A
change is notified before the response, and only if there is something to
notify; a response is sent only to a request with an id.

The source builds the same documents member by member.  It departs from them
in one case (`CleanResponse`): the compiler may evaluate `response[RESULT]`
before it calls the callback of a method, and where the callback then throws,
the null result stays beside the error.
-/
import JetPeer.Answers

namespace JetPeer

variable {env : Env} {data : Json} {s u : Peer} {path : String}

/-! ### Documents -/

namespace Due

def change (path : String) (value : Json) : Json :=
  .object [("method", .string "change"),
    ("params", .object [("path", .string path), ("value", value)])]

/-- A warning has a message if there is one. -/
def warning (r : SetStateResult) : Json :=
  .object (("code", .int r.code) ::
    if r.message = "" then [] else [("message", .string r.message)])

def success (r : SetStateResult) : Json :=
  .object [("result", .object (if r.code = 0 then [] else [("warning", warning r)]))]

def error (code : Int) (message : String) : Json :=
  .object [("error", .object [("code", .int code), ("message", .string message)])]

/-- The error a thrown exception is answered with. -/
def failure : Thrown → Json
  | .jsoncpprpc e => .object [("error",
      .object [("code", .int e.code), ("data", e.data), ("message", .string e.message)])]
  | .jsonrpc e => error e.code e.message
  | .std what => error Jsonrpc.internalError what
  | .unknown => error Jsonrpc.internalError "caught exception!"

def result (v : Json) : Json := .object [("result", v)]

/-- A response, to a request that has an id. -/
def answer (data body : Json) : List Json :=
  if (data.member Jsonrpc.id).isNull then [] else [withRequestId data body]

/-- The telegrams for a request to a state; without an outcome the state is
read only. -/
def state (data : Json) (path : String) : Option (Outcome SetStateCbResult) → List Json
  | none => answer data (error Jsonrpc.internalError "state is read only!")
  | some (.ok r) =>
      (if r.value.isNull then [] else [change path r.value]) ++ answer data (success r.result)
  | some (.error e) => answer data (failure e)

/-- The telegrams for a request to a method. -/
def method (data : Json) : Outcome Json → List Json
  | .ok v => answer data (result v)
  | .error e => answer data (failure e)

end Due

/-! ### What is due -/

/-- The params of a request to a state. -/
def requestedValue (data : Json) : Json := (data.member Jsonrpc.params).member Word.value

/-- How calling the entry of a state ends; a read only state is not called. -/
def stateOutcome (env : Env) (data : Json) (path : String) (s : Peer) (callback : Option Callback) :
    Option (Outcome SetStateCbResult) :=
  callback.map fun cb => (env.stateCallback cb (requestedValue data) path s.registry).1

/-- The telegrams due for a request to `path`; states come before methods. -/
def Due.telegrams (env : Env) (data : Json) (path : String) (s : Peer) : List Json :=
  match s.registry.tables.stateCallbacks.lookup path with
  | some callback => Due.state data path (stateOutcome env data path s callback)
  | none => (s.registry.tables.methodCallbacks.lookup path).elim [] fun callback =>
      Due.method data (methodOutcome env data s callback)

/-- The call due for a request to `path`. -/
def Due.call (data : Json) (path : String) (s : Peer) : Option (Callback × Json) :=
  match s.registry.tables.stateCallbacks.lookup path with
  | some callback => callback.map fun cb => (cb, requestedValue data)
  | none => ((s.registry.tables.methodCallbacks.lookup path).join).map fun cb =>
      (cb, data.member Jsonrpc.params)

/-- The call of a callback, if there was one to call. -/
def Dispatched.call : Dispatched → Option (Callback × Json)
  | .response callback data => callback.map fun cb => (cb, data)
  | .notification _ callback params _ => callback.map fun cb => (cb, params)
  | .state _ callback value _ => callback.map fun cb => (cb, value)
  | .method _ callback params _ => callback.map fun cb => (cb, params)

def Peer.calls (s : Peer) : List (Callback × Json) := s.dispatched.filterMap Dispatched.call

/-- The connection takes these telegrams. -/
def Accepts (env : Env) (docs : List Json) : Prop :=
  ∀ doc ∈ docs, Fits env doc ∧ env.socketError doc = none

theorem successResponse_eq (r : SetStateResult) : successResponse r = Due.success r := by
  unfold successResponse Due.success Due.warning
  by_cases hcode : r.code = 0
  · rw [if_neg (not_not.mpr hcode), if_pos hcode]
    rfl
  · rw [if_pos hcode, if_neg hcode]
    by_cases hmessage : r.message = ""
    · rw [if_neg (not_not.mpr hmessage), if_pos hmessage]
      rfl
    · rw [if_pos hmessage, if_neg hmessage]
      rfl

theorem Accepts.left {docs docs' : List Json} (h : Accepts env (docs ++ docs')) :
    Accepts env docs := fun doc hdoc => h doc (List.mem_append_left _ hdoc)

theorem Accepts.right {docs docs' : List Json} (h : Accepts env (docs ++ docs')) :
    Accepts env docs' := fun doc hdoc => h doc (List.mem_append_right _ hdoc)

/-- The compiler evaluates `response[RESULT]` first, and the method throws. -/
def throwingEnv : Env :=
  { plainEnv with methodCallback := fun _ _ r => (.error (.std "bad"), { registry := r }) }

/-- A peer that serves the method `m`. -/
def throwingPeer : Peer where
  registry := { tables := { methodCallbacks := AList.insert "m" (some 0) ∅ } }

def methodRequest : Json := .object [("id", .uint 1), ("method", .string "m")]

end JetPeer
