/-
JetPeer/Answers.lean

Which requests to a served path are answered.

`Answered id s u` says what an answer is: between `s` and `u` exactly one
telegram carrying the id was sent, with either a result or an error, and with
a result exactly if the callback of the path was called and returned.

Every branch of `handleMessage` that answers ends in `respond`, so one lemma
(`respond_answered`) reduces the question to three facts about the response
at hand: it fits into a telegram, it has one of the two members, and it has
the right one.  `Answerable` collects what this means for the request, the
tables and the outcome of the callback; `handleMessage_answered_iff` says
that nothing else matters.
-/
import JetPeer.Dispatch

namespace JetPeer

variable {env : Env} {data : Json} {s u : Peer}

/-! ### Members of responses -/

namespace Json

@[simp] theorem isMember_modify_self (v : Json) (key : String) (f : Json → Json) :
    (v.modify key f).isMember key = true := isMember_set_self _ _ _

theorem isMember_modify_of_ne {v : Json} {key k : String} (f : Json → Json) (h : k ≠ key) :
    (v.modify key f).isMember k = v.isMember k := isMember_set_of_ne _ h

theorem member_modify_of_ne {v : Json} {key k : String} (f : Json → Json) (h : k ≠ key) :
    (v.modify key f).member k = v.member k := member_set_of_ne _ h

end Json

/-- A response has a result. -/
def hasResult (doc : Json) : Bool := doc.isMember Jsonrpc.result

theorem isError_withError (response : Json) (code : Int) (message : String) :
    isError (withError response code message) = true := Json.isMember_modify_self _ _ _

theorem hasResult_withError (response : Json) (code : Int) (message : String) :
    hasResult (withError response code message) = hasResult response := by
  show (Json.modify _ _ _).isMember _ = _
  rw [Json.isMember_modify_of_ne _ (by decide), Json.isMember_modify_of_ne _ (by decide)]
  rfl

theorem hasResult_successResponse (r : SetStateResult) :
    hasResult (successResponse r) = true ∧ isError (successResponse r) = false := by
  unfold successResponse
  split_ifs
  · refine ⟨Json.isMember_modify_self _ _ _, ?_⟩
    show (Json.modify _ _ _).isMember _ = _
    rw [Json.isMember_modify_of_ne _ (by decide), Json.isMember_modify_of_ne _ (by decide)]
    rfl
  · refine ⟨Json.isMember_modify_self _ _ _, ?_⟩
    show (Json.modify _ _ _).isMember _ = _
    rw [Json.isMember_modify_of_ne _ (by decide)]
    rfl
  · exact ⟨rfl, rfl⟩

theorem hasResult_json (e : JsoncpprpcException) :
    hasResult e.json = false ∧ isError e.json = true := by
  refine ⟨?_, Json.isMember_modify_self _ _ _⟩
  show (Json.modify _ _ _).isMember _ = _
  rw [Json.isMember_modify_of_ne _ (by decide)]
  exact hasResult_withError .null e.code e.message

/-- On an empty response every catch clause leaves an error only. -/
theorem hasResult_catchLadder (e : Thrown) :
    hasResult (catchLadder .null e) = false ∧ isError (catchLadder .null e) = true := by
  cases e with
  | jsoncpprpc e => exact hasResult_json e
  | _ => exact ⟨hasResult_withError _ _ _, isError_withError _ _ _⟩

theorem member_id_changeNotification (path : String) (value : Json) :
    (changeNotification path value).member Jsonrpc.id = .null := by
  unfold changeNotification
  rw [Json.member_modify_of_ne _ (by decide), Json.member_modify_of_ne _ (by decide),
    Json.member_set_of_ne _ (by decide)]
  rfl

/-! ### What an answer is -/

/-- The callback of a path was called and returned. -/
def Dispatched.returned : Dispatched → Bool
  | .state _ _ _ returned => returned
  | .method _ _ _ returned => returned
  | _ => false

/-- From `s` to `u` the request with this id was answered, once. -/
def Answered (id : Json) (s u : Peer) : Prop :=
  ∃ before answer behind ds, u.sent = s.sent ++ before ++ answer :: behind ∧
    u.dispatched = s.dispatched ++ ds ∧
    (∀ d ∈ before ++ behind, d.member Jsonrpc.id ≠ id) ∧
    answer.member Jsonrpc.id = id ∧
    hasResult answer = !isError answer ∧
    (hasResult answer = true ↔ ∃ d ∈ ds, d.returned = true)

/-- The telegram is not too long. -/
def Fits (env : Env) (doc : Json) : Prop := (env.writeString doc).length ≤ maxMessageSize

/-- The response with the id of the request. -/
def withRequestId (data response : Json) : Json :=
  response.set Jsonrpc.id (data.member Jsonrpc.id)

theorem not_answered_of_sent {id : Json} (h : u.sent = s.sent) : ¬ Answered id s u := by
  rintro ⟨before, answer, behind, ds, hsent, -⟩
  have hlen := congrArg List.length (h.symm.trans hsent)
  simp only [List.length_append, List.length_cons] at hlen
  omega

/-- A response is sent if it fits. -/
theorem respond_sent (hconn : ∀ doc, env.socketError doc = none)
    (hid : (data.member Jsonrpc.id).isNull = false) (response : Json) (t : Peer) :
    (Fits env (withRequestId data response) ∧
        respond env data response t = { t with sent := t.sent ++ [withRequestId data response] }) ∨
      (¬ Fits env (withRequestId data response) ∧ respond env data response t = t) := by
  have hrespond : respond env data response t = trySend env (withRequestId data response) t := by
    simp only [respond, hid, Bool.false_eq_true, if_false, withRequestId]
  rw [hrespond, trySend]
  by_cases hfits : Fits env (withRequestId data response)
  · left
    rw [sendMessage_eq_ok (hconn _) hfits]
    exact ⟨hfits, rfl⟩
  · right
    rw [sendMessage_eq_error (Nat.not_le.mp hfits)]
    exact ⟨hfits, rfl⟩

/-- **Where a branch ends in `respond`**, the request is answered if the
response fits, has one of the two members, and has the right one. -/
theorem respond_answered (hconn : ∀ doc, env.socketError doc = none)
    (hid : (data.member Jsonrpc.id).isNull = false) {response : Json} {t : Peer}
    {before : List Json} {d : Dispatched} (hsent : t.sent = s.sent ++ before)
    (hbefore : ∀ d ∈ before, d.member Jsonrpc.id = .null)
    (hdispatched : t.dispatched = s.dispatched ++ [d]) :
    Answered (data.member Jsonrpc.id) s (respond env data response t) ↔
      Fits env (withRequestId data response) ∧ hasResult response = !isError response ∧
        hasResult response = d.returned := by
  have hne : ∀ d : Json, d.member Jsonrpc.id = .null →
      d.member Jsonrpc.id ≠ data.member Jsonrpc.id := by
    intro d hd heq
    rw [← heq, hd] at hid
    cases hid
  have hresult : hasResult (withRequestId data response) = hasResult response :=
    Json.isMember_set_of_ne _ (by decide)
  have herror : isError (withRequestId data response) = isError response :=
    Json.isMember_set_of_ne _ (by decide)
  rcases respond_sent hconn hid response t with ⟨hfits, hresp⟩ | ⟨hfits, hresp⟩
  · rw [hresp]
    constructor
    · rintro ⟨before', answer, behind, ds, hsent', hds, hothers, hanswer, hone, hret⟩
      -- the only telegram with an id is the response
      have hlist : before ++ [withRequestId data response] = before' ++ answer :: behind := by
        have h : s.sent ++ before ++ [withRequestId data response]
            = s.sent ++ before' ++ answer :: behind := by
          rw [← hsent]
          exact hsent'
        rw [List.append_assoc, List.append_assoc] at h
        exact List.append_cancel_left h
      have hmem : answer ∈ before ++ [withRequestId data response] := by
        rw [hlist]
        simp
      have hanswer' : answer = withRequestId data response := by
        rcases List.mem_append.mp hmem with h | h
        · exact absurd hanswer (hne _ (hbefore _ h))
        · exact List.mem_singleton.mp h
      have hds' : ds = [d] := List.append_cancel_left (hds.symm.trans hdispatched)
      rw [hanswer', hresult, herror] at hone
      rw [hanswer', hresult, hds'] at hret
      refine ⟨hfits, hone, Bool.eq_iff_iff.mpr (hret.trans ?_)⟩
      simp
    · rintro ⟨-, hone, hret⟩
      refine ⟨before, withRequestId data response, [], [d], ?_, hdispatched, ?_, ?_, ?_, ?_⟩
      · show t.sent ++ _ = _
        rw [hsent]
      · intro d' hd'
        rw [List.append_nil] at hd'
        exact hne d' (hbefore d' hd')
      · exact Json.member_set_self _ _ _
      · rw [hresult, herror]
        exact hone
      · rw [hresult, hret]
        simp
  · rw [hresp]
    constructor
    · rintro ⟨before', answer, behind, ds, hsent', hds, hothers, hanswer, -⟩
      have hlist : before = before' ++ answer :: behind := by
        rw [hsent, List.append_assoc] at hsent'
        exact List.append_cancel_left hsent'
      have hmem : answer ∈ before := by
        rw [hlist]
        simp
      exact absurd hanswer (hne _ (hbefore _ hmem))
    · rintro ⟨h, -⟩
      exact absurd h hfits

/-- The same where the response is all that may have been sent. -/
theorem respond_answered_alone (hconn : ∀ doc, env.socketError doc = none)
    (hid : (data.member Jsonrpc.id).isNull = false) {response : Json} {t : Peer}
    {d : Dispatched} (hsent : t.sent = s.sent) (hdispatched : t.dispatched = s.dispatched ++ [d]) :
    Answered (data.member Jsonrpc.id) s (respond env data response t) ↔
      Fits env (withRequestId data response) ∧ hasResult response = !isError response ∧
        hasResult response = d.returned :=
  respond_answered hconn hid (hsent.trans (List.append_nil _).symm) (fun _ h => by cases h)
    hdispatched

/-! ### Which requests are answered -/

/-- A request to a state is answered. -/
def StateAnswerable (env : Env) (data : Json) (path : String) (callback : Option Callback)
    (s : Peer) : Prop :=
  HasValue data ∧
    match callback with
    | none => Fits env (withRequestId data readOnlyResponse)
    | some cb =>
        match (env.stateCallback cb ((data.member Jsonrpc.params).member Word.value) path
            s.registry).1 with
        | .ok r =>
            (r.value.isNull = true ∨ Fits env (changeNotification path r.value)) ∧
              Fits env (withRequestId data (successResponse r.result))
        | .error e => Fits env (withRequestId data (catchLadder .null e))

/-- How calling the entry of a method ends. -/
def methodOutcome (env : Env) (data : Json) (s : Peer) : Option Callback → Outcome Json
  | none => .error badFunctionCall
  | some cb => (env.methodCallback cb (data.member Jsonrpc.params) s.registry).1

/-- Nothing was written into the response before the exception, or the catch
clause replaces it. -/
def LeavesNoResult (resultFirst : Bool) : Outcome Json → Prop
  | .ok _ => True
  | .error (.jsoncpprpc _) => True
  | .error _ => resultFirst = false

/-- A call of a method is answered. -/
def MethodAnswerable (env : Env) (data : Json) (callback : Option Callback) (s : Peer) : Prop :=
  Fits env (withRequestId data
      (methodResponse env.resultFirst (methodOutcome env data s callback))) ∧
    LeavesNoResult env.resultFirst (methodOutcome env data s callback)

/-- A request to `path` is answered. -/
def Answerable (env : Env) (data : Json) (path : String) (s : Peer) : Prop :=
  match s.registry.tables.stateCallbacks.lookup path with
  | some callback => StateAnswerable env data path callback s
  | none => ∀ callback, s.registry.tables.methodCallbacks.lookup path = some callback →
      MethodAnswerable env data callback s

/-- A request to a path that is registered as a state or method. -/
structure Served (data : Json) (path : String) (s : Peer) : Prop where
  object : ∃ ms, data = .object ms
  method : data.member Jsonrpc.method = .string path
  registered : path ∈ s.registry.tables.stateCallbacks ∨ path ∈ s.registry.tables.methodCallbacks

/-! ### One lemma a branch -/

section Branches

variable (hconn : ∀ doc, env.socketError doc = none)
  (hid : (data.member Jsonrpc.id).isNull = false)

include hconn hid

theorem handleState_answered {path : String} {callback : Option Callback}
    (hhas : HasValue data) :
    Answered (data.member Jsonrpc.id) s
        (handleState env data path callback
          ((data.member Jsonrpc.params).member Word.value) s).1 ↔
      StateAnswerable env data path callback s := by
  cases callback with
  | none =>
      refine Iff.trans (respond_answered_alone hconn hid rfl rfl) ?_
      have hres : hasResult readOnlyResponse = false := hasResult_withError _ _ _
      have herr : isError readOnlyResponse = true := isError_withError _ _ _
      rw [hres, herr]
      exact ⟨fun h => ⟨hhas, h.1⟩, fun h => ⟨h.2, rfl, rfl⟩⟩
  | some cb =>
      rcases ho : env.stateCallback cb ((data.member Jsonrpc.params).member Word.value) path
        s.registry with ⟨e | r, a⟩
      · -- the callback threw
        simp only [handleState, ho, StateAnswerable]
        refine Iff.trans (respond_answered_alone hconn hid rfl rfl) ?_
        rw [(hasResult_catchLadder e).1, (hasResult_catchLadder e).2]
        exact ⟨fun h => ⟨hhas, h.1⟩, fun h => ⟨h.2, rfl, rfl⟩⟩
      · simp only [handleState, ho, StateAnswerable]
        obtain ⟨hres, herr⟩ := hasResult_successResponse r.result
        by_cases hnull : r.value.isNull = true
        · -- nothing to notify
          rw [if_pos hnull]
          refine Iff.trans (respond_answered_alone hconn hid rfl rfl) ?_
          rw [hres, herr]
          exact ⟨fun h => ⟨hhas, .inl hnull, h.1⟩, fun h => ⟨h.2.2, rfl, rfl⟩⟩
        · rw [if_neg hnull]
          by_cases hfits : Fits env (changeNotification path r.value)
          · rw [sendMessage_eq_ok (hconn _) hfits]
            refine Iff.trans (respond_answered hconn hid rfl ?_ rfl) ?_
            · intro d hd
              rw [List.mem_singleton.mp hd]
              exact member_id_changeNotification _ _
            · rw [hres, herr]
              exact ⟨fun h => ⟨hhas, .inr hfits, h.1⟩, fun h => ⟨h.2.2, rfl, rfl⟩⟩
          · -- the callback returned, and its result is answered with an error
            rw [sendMessage_eq_error (Nat.not_le.mp hfits)]
            refine Iff.trans (respond_answered_alone hconn hid rfl rfl) ?_
            rw [(hasResult_catchLadder _).1]
            constructor
            · rintro ⟨-, -, h⟩
              cases h
            · rintro ⟨-, h | h, -⟩
              · exact absurd h hnull
              · exact absurd h hfits

omit hconn hid in
/-- The response to a method has the right members unless a result was
written first. -/
theorem methodResponse_right (resultFirst : Bool) (outcome : Outcome Json) :
    (hasResult (methodResponse resultFirst outcome)
        = !isError (methodResponse resultFirst outcome) ∧
      hasResult (methodResponse resultFirst outcome) = outcome.isOk) ↔
      LeavesNoResult resultFirst outcome := by
  rcases outcome with e | v
  · have hplain : ∀ code message, (hasResult (withError
          (if resultFirst then Json.null.set Jsonrpc.result .null else .null) code message)
        = !isError (withError
          (if resultFirst then Json.null.set Jsonrpc.result .null else .null) code message) ∧
        hasResult (withError
          (if resultFirst then Json.null.set Jsonrpc.result .null else .null) code message)
        = false) ↔ resultFirst = false := by
      intro code message
      rw [hasResult_withError, isError_withError]
      cases resultFirst
      · exact ⟨fun _ => rfl, fun _ => ⟨rfl, rfl⟩⟩
      · refine ⟨fun h => ?_, fun h => by cases h⟩
        exact absurd h.2 (by decide)
    cases e with
    | jsoncpprpc e =>
        obtain ⟨hres, herr⟩ := hasResult_json e
        refine ⟨fun _ => trivial, fun _ => ?_⟩
        show hasResult e.json = !isError e.json ∧ hasResult e.json = false
        rw [hres, herr]
        exact ⟨rfl, rfl⟩
    | jsonrpc e => exact hplain e.code e.message
    | std what => exact hplain Jsonrpc.internalError what
    | unknown => exact hplain Jsonrpc.internalError "caught exception!"
  · exact ⟨fun _ => trivial, fun _ => ⟨rfl, rfl⟩⟩

theorem handleMethod_answered {path : String} {callback : Option Callback} :
    Answered (data.member Jsonrpc.id) s
        (handleMethod env data path callback (data.member Jsonrpc.params) s).1 ↔
      MethodAnswerable env data callback s := by
  cases callback with
  | none =>
      refine Iff.trans (respond_answered_alone hconn hid rfl rfl) ?_
      exact and_congr_right fun _ => methodResponse_right _ (.error badFunctionCall)
  | some cb =>
      rcases ho : env.methodCallback cb (data.member Jsonrpc.params) s.registry with ⟨outcome, a⟩
      simp only [handleMethod, ho, MethodAnswerable, methodOutcome]
      refine Iff.trans (respond_answered_alone hconn hid rfl rfl) ?_
      exact and_congr_right fun _ => methodResponse_right _ outcome

end Branches

/-! ### Main result -/

/-- What `handleMessage` does with a request to a served path. -/
theorem handleMessage_served {path : String} (h : Served data path s) :
    (∃ callback, s.registry.tables.stateCallbacks.lookup path = some callback ∧
        ((HasValue data ∧ (handleMessage env data s).1 = (handleState env data path callback
            ((data.member Jsonrpc.params).member Word.value) s).1) ∨
          (¬ HasValue data ∧ (handleMessage env data s).1 = s))) ∨
      (s.registry.tables.stateCallbacks.lookup path = none ∧
        ∃ callback, s.registry.tables.methodCallbacks.lookup path = some callback ∧
          (handleMessage env data s).1
            = (handleMethod env data path callback (data.member Jsonrpc.params) s).1) := by
  have htarget : target s.registry.tables data = requestTarget s.registry.tables data path := by
    rw [target_eq (.inr h.object), h.method]
    rfl
  rcases hs : s.registry.tables.stateCallbacks.lookup path with - | callback
  · -- a method
    have hmem : path ∈ s.registry.tables.methodCallbacks :=
      h.registered.resolve_left (AList.lookup_eq_none.mp hs)
    obtain ⟨callback, hm⟩ := Maps.lookup_of_mem hmem
    rw [requestTarget_method (.inr h.object) hs hm] at htarget
    exact .inr ⟨rfl, callback, hm, by rw [handleMessage_of_ok htarget]; rfl⟩
  · refine .inl ⟨callback, rfl, ?_⟩
    rcases requestTarget_state_cases (.inr h.object) hs with
      ⟨hv, ht⟩ | ⟨hno, ht⟩ | ⟨hv, -, e, ht⟩
    · exact .inl ⟨hv, by rw [handleMessage_of_ok (htarget.trans ht)]; rfl⟩
    · exact .inr ⟨fun hv => hv.not_hasNoValue hno,
        by rw [handleMessage_of_ok (htarget.trans ht)]; rfl⟩
    · exact .inr ⟨hv, by rw [handleMessage_of_error (htarget.trans ht)]⟩

/-- **Exactly the answerable requests are answered**: on a connection that
takes every telegram, a request with an id to a served path is answered once,
with a result if and only if the callback returned, exactly if it is
`Answerable`. -/
theorem handleMessage_answered_iff {path : String} (hconn : ∀ doc, env.socketError doc = none)
    (hserved : Served data path s) (hid : (data.member Jsonrpc.id).isNull = false) :
    Answered (data.member Jsonrpc.id) s (handleMessage env data s).1 ↔
      Answerable env data path s := by
  rcases @handleMessage_served env data s path hserved with
    ⟨callback, hs, ⟨hhas, hm⟩ | ⟨hno, hm⟩⟩ | ⟨hs, callback, hc, hm⟩
  · rw [hm, Answerable, hs]
    exact handleState_answered hconn hid hhas
  · rw [hm, Answerable, hs]
    exact ⟨fun h => absurd h (not_answered_of_sent rfl), fun h => absurd h.1 hno⟩
  · rw [hm, Answerable, hs]
    refine (handleMethod_answered hconn hid).trans ⟨fun h cb hcb => ?_, fun h => h callback hc⟩
    obtain rfl : callback = cb := Option.some.inj (hc.symm.trans hcb)
    exact h

/-! ### One state, asked twice -/

/-- A peer that serves the state `p`. -/
def servingPeer : Peer where
  registry := { tables := { stateCallbacks := AList.insert "p" (some 0) ∅ } }

/-- A request to set `p`, with these params. -/
def setRequest (params : List (String × Json)) : Json :=
  .object [("id", .uint 1), ("method", .string "p"), ("params", .object params)]

theorem setRequest_served (params : List (String × Json)) :
    Served (setRequest params) "p" servingPeer where
  object := ⟨_, rfl⟩
  method := rfl
  registered := .inl (AList.mem_insert _ |>.mpr (.inl rfl))

theorem handleMessage_answered_iff_set :
    Answered (.uint 1) servingPeer
      (handleMessage plainEnv (setRequest [("value", .bool true)]) servingPeer).1 :=
  (handleMessage_answered_iff (fun _ => rfl) (setRequest_served _) rfl).mpr
    ⟨⟨⟨_, rfl⟩, rfl⟩, .inl rfl, by unfold Fits; decide⟩

/-- A request without a value is not answered. -/
theorem valueless_request_not_answered :
    ∃ (env : Env) (data : Json) (path : String) (s : Peer),
      (∀ doc, env.socketError doc = none) ∧ Served data path s ∧
        (data.member Jsonrpc.id).isNull = false ∧
        ¬ Answered (data.member Jsonrpc.id) s (handleMessage env data s).1 :=
  ⟨plainEnv, setRequest [], "p", servingPeer, fun _ => rfl, setRequest_served _, rfl,
    not_answered_of_sent rfl⟩

end JetPeer
