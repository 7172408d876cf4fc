/-
JetPeer/SyncCalls.lean

`lib/peer.cpp`: what the synchronous operations make of a response.

`executeSync` hands over whatever object arrived with the id of the request;
its error and result are chosen by the daemon and the remote peer.  So each
operation is a function of the response, and it can end in four ways:

    returned, threw      what the interface promises
    escaped              a `Json::LogicError` leaves the operation
    terminated           the exception is raised inside a `noexcept` function

`AnswerReadable` says for every operation on which responses only the first
two are possible, also for the accessors of the exception thrown;
`run_total_iff` says that it leaves no response out.
-/
import JetPeer.Exceptions
import JetPeer.Requests

namespace JetPeer

/-! ### How an operation ends -/

inductive Ending (α : Type*) where
  | returned (a : α)
  | threw (e : JsoncpprpcException)
  /-- A `Json::LogicError` leaves the operation. -/
  | escaped (e : LogicError)
  /-- `std::terminate`. -/
  | terminated

namespace Ending

variable {α : Type*}

/-- An operation that only reads. -/
def ofAccess : Except LogicError α → Ending α
  | .ok a => .returned a
  | .error e => .escaped e

/-- `throw jsoncpprpcException(result)`; the constructor is `noexcept`. -/
def throwResponse (response : Json) : Ending α :=
  match JsoncpprpcException.ofResponse response with
  | .ok e => .threw e
  | .error _ => .terminated

/-- The value returned does not matter. -/
def void : Ending α → Ending Unit
  | .returned _ => .returned ()
  | .threw e => .threw e
  | .escaped e => .escaped e
  | .terminated => .terminated

end Ending

/-! ### The operations -/

/-- The result of a response, unless it is an error. -/
def resultOrThrow (response : Json) : Ending Json :=
  if isError response then .throwResponse response
  else .ofAccess (response.at Jsonrpc.result)

/-- `Peer::authenticate`. -/
def authenticate (response : Json) : Ending Json := resultOrThrow response

/-- `Peer::callMethodPrivate`. -/
def callMethodPrivate (response : Json) : Ending Json := resultOrThrow response

/-- `Peer::addMethodPrivate`; the exception has the whole response for its
data, and `__PRETTY_FUNCTION__` for its message. -/
def addMethodPrivate (prettyFunction : String) (response : Json) : Ending Unit :=
  if isError response then
    .threw (JsoncpprpcException.ofCodeData (-1) prettyFunction response)
  else .returned ()

/-- `Peer::addStatePrivate`. -/
def addStatePrivate (response : Json) : Ending Unit :=
  if isError response then .throwResponse response else .returned ()

/-- `Peer::addFetch`. -/
def addFetch (fetchId : FetchId) (response : Json) : Ending FetchId :=
  if isError response then .throwResponse response else .returned fetchId

/-- `result[RESULT][WARNING][CODE]`. -/
def warningCode (response : Json) : Except LogicError Json :=
  ((response.at Jsonrpc.result).bind fun resultNode => resultNode.at Word.warning).bind
    fun warning => warning.at Jsonrpc.code

/-- `Peer::setStateValuePrivate`.  The message of the warning is not read. -/
def setStateValuePrivate (response : Json) : Ending SetStateResult :=
  if isError response then .throwResponse response
  else .ofAccess ((warningCode response).bind fun code =>
    if code.isInt then code.asInt.map fun n => { code := n } else .ok {})

/-- The synchronous operations that throw. -/
inductive Operation where
  | authenticate
  | callMethod
  | addMethod
  | addState
  | addFetch
  | setStateValue
  deriving DecidableEq

/-- How an operation ends on a response. -/
def Operation.run (prettyFunction : String) (fetchId : FetchId) (response : Json) :
    Operation → Ending Unit
  | .authenticate => (JetPeer.authenticate response).void
  | .callMethod => (callMethodPrivate response).void
  | .addMethod => addMethodPrivate prettyFunction response
  | .addState => addStatePrivate response
  | .addFetch => (JetPeer.addFetch fetchId response).void
  | .setStateValue => (setStateValuePrivate response).void

/-! ### What the interface promises -/

/-- It returns exactly if there is no error, and else throws an exception
whose `dataEntries` returns; `json` returns on every exception. -/
def Ending.Total {α : Type*} (response : Json) : Ending α → Prop
  | .returned _ => isError response = false
  | .threw e => isError response = true ∧ ∃ entries, e.dataEntries = .ok entries
  | .escaped _ => False
  | .terminated => False

/-- Every element of the data is an error itself. -/
def ReadableData (data : Json) : Prop := ∀ m ∈ data.iterate, ReadableError m.2

/-- The responses an operation can read. -/
def AnswerReadable (op : Operation) (response : Json) : Prop :=
  if isError response then
    if op = .addMethod then ReadableData response
    else ReadableError (response.member Jsonrpc.err) ∧
      ReadableData ((response.member Jsonrpc.err).member Jsonrpc.data)
  else op = .setStateValue →
    HasMembers (response.member Jsonrpc.result) ∧
      HasMembers ((response.member Jsonrpc.result).member Word.warning)

/-! ### Reading responses -/

section

variable {response : Json}

theorem throwResponse_total_iff {α : Type*} (h : HasMembers response)
    (herr : isError response = true) :
    (Ending.throwResponse response : Ending α).Total response ↔
      ReadableError (response.member Jsonrpc.err) ∧
        ReadableData ((response.member Jsonrpc.err).member Jsonrpc.data) := by
  rw [← JsoncpprpcException.ofResponse_eq_ok_iff h]
  rcases hr : JsoncpprpcException.ofResponse response with e | e
  · constructor
    · intro htotal
      simp only [Ending.throwResponse, hr] at htotal
      exact absurd htotal id
    · rintro ⟨⟨e', he'⟩, -⟩
      cases he'
  · have hdata := (JsoncpprpcException.ofResponse_eq_ok.mp hr).2.2
    have hiff : (Ending.throwResponse response : Ending α).Total response ↔
        ReadableData e.data := by
      simp only [Ending.throwResponse, hr, Ending.Total, herr, true_and]
      exact JsoncpprpcException.dataEntries_eq_ok_iff
    rw [hiff, hdata]
    exact ⟨fun h => ⟨⟨e, rfl⟩, h⟩, fun h => h.2⟩

theorem total_void {α : Type*} {x : Ending α} : x.void.Total response ↔ x.Total response := by
  cases x <;> rfl

theorem ofAccess_total_iff {α : Type*} {x : Except LogicError α} (herr : isError response = false) :
    (Ending.ofAccess x).Total response ↔ ∃ a, x = .ok a := by
  cases x with
  | error e => exact ⟨fun h => absurd h id, fun ⟨_, h⟩ => (nomatch h)⟩
  | ok a => exact ⟨fun _ => ⟨a, rfl⟩, fun _ => herr⟩

/-- The code of the warning is found if both objects on the way are there or
missing. -/
theorem warningCode_eq_ok (h : HasMembers response) {code : Json} :
    warningCode response = .ok code ↔ HasMembers (response.member Jsonrpc.result) ∧
      HasMembers ((response.member Jsonrpc.result).member Word.warning) ∧
        code = ((response.member Jsonrpc.result).member Word.warning).member Jsonrpc.code := by
  simp only [warningCode, bind_eq_ok, h.at_eq]
  constructor
  · rintro ⟨w, ⟨r, hr, hw⟩, hc⟩
    obtain rfl := Except.ok.inj hr
    have hres := (at_eq_ok_iff _).mp ⟨w, hw⟩
    rw [eq_member_of_at hw] at hc
    exact ⟨hres, (at_eq_ok_iff _).mp ⟨code, hc⟩, eq_member_of_at hc⟩
  · rintro ⟨hres, hwarn, rfl⟩
    exact ⟨_, ⟨_, rfl, hres.at_eq _⟩, hwarn.at_eq _⟩

/-- A code that is an `int` is read. -/
theorem asInt_of_isInt_eq_true {v : Json} (h : v.isInt = true) : ∃ n, v.asInt = .ok n := by
  refine asInt_eq_ok_iff.mpr ?_
  cases v with
  | int n =>
      have h := of_decide_eq_true h
      exact h
  | uint n =>
      have h := of_decide_eq_true h
      exact h
  | real r =>
      have h := of_decide_eq_true h
      exact ⟨h.1, h.2.1⟩
  | _ => cases h

theorem setStateValuePrivate_total_iff (h : HasMembers response)
    (herr : isError response = false) :
    (setStateValuePrivate response).Total response ↔
      HasMembers (response.member Jsonrpc.result) ∧
        HasMembers ((response.member Jsonrpc.result).member Word.warning) := by
  simp only [setStateValuePrivate, herr, Bool.false_eq_true, if_false]
  rw [ofAccess_total_iff herr]
  simp only [bind_eq_ok, warningCode_eq_ok h]
  constructor
  · rintro ⟨_, _, ⟨hres, hwarn, -⟩, -⟩
    exact ⟨hres, hwarn⟩
  · rintro ⟨hres, hwarn⟩
    by_cases hint : (((response.member Jsonrpc.result).member Word.warning).member
        Jsonrpc.code).isInt = true
    · obtain ⟨n, hn⟩ := asInt_of_isInt_eq_true hint
      exact ⟨_, _, ⟨hres, hwarn, rfl⟩, by rw [if_pos hint, hn]; rfl⟩
    · -- a code that is no `int` is left out, without an error
      exact ⟨_, _, ⟨hres, hwarn, rfl⟩, if_neg hint⟩

end

/-- **An operation is total on exactly the readable responses.** -/
theorem run_total_iff (op : Operation) (prettyFunction : String) (fetchId : FetchId)
    (ms : List (String × Json)) :
    (op.run prettyFunction fetchId (.object ms)).Total (.object ms) ↔
      AnswerReadable op (.object ms) := by
  have h : HasMembers (.object ms) := .inr ⟨ms, rfl⟩
  rcases herr : isError (.object ms) with - | -
  · -- no error
    have hreturned : ∀ {α : Type} (a : α), (Ending.returned a).Total (.object ms) := fun _ => herr
    simp only [AnswerReadable, herr, Bool.false_eq_true, if_false]
    cases op with
    | setStateValue =>
        rw [Operation.run, total_void, setStateValuePrivate_total_iff h herr]
        exact ⟨fun h _ => h, fun h => h rfl⟩
    | authenticate | callMethod =>
        refine ⟨fun _ h => (nomatch h), fun _ => ?_⟩
        rw [Operation.run, total_void]
        simp only [JetPeer.authenticate, callMethodPrivate, resultOrThrow, herr,
          Bool.false_eq_true, if_false]
        exact (ofAccess_total_iff herr).mpr ⟨_, rfl⟩
    | addMethod | addState | addFetch =>
        refine ⟨fun _ h => (nomatch h), fun _ => ?_⟩
        simp only [Operation.run, total_void, addMethodPrivate, addStatePrivate,
          JetPeer.addFetch, herr, Bool.false_eq_true, if_false]
        exact herr
  · -- an error
    simp only [AnswerReadable, herr, if_true]
    cases op with
    | addMethod =>
        simp only [Operation.run, addMethodPrivate, herr, if_true]
        exact ⟨fun h => JsoncpprpcException.dataEntries_eq_ok_iff.mp h.2,
          fun h => ⟨herr, JsoncpprpcException.dataEntries_eq_ok_iff.mpr h⟩⟩
    | _ =>
        rw [if_neg (by decide)]
        simp only [Operation.run, total_void, JetPeer.authenticate, callMethodPrivate,
          resultOrThrow, addStatePrivate, JetPeer.addFetch, setStateValuePrivate, herr, if_true]
        exact throwResponse_total_iff h herr

/-- An error that is a string ends the process: the constructor of the
exception is `noexcept`. -/
theorem string_error_terminates :
    ¬ ∀ (op : Operation) (prettyFunction : String) (fetchId : FetchId)
      (ms : List (String × Json)),
      (op.run prettyFunction fetchId (.object ms)).Total (.object ms) := by
  intro h
  exact h .setStateValue "" 0 [(Jsonrpc.err, .string "x"), (Jsonrpc.id, .uint 1)]

end JetPeer
