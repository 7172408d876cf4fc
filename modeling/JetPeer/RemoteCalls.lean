/-
JetPeer/RemoteCalls.lean

From the callback of the owner back to the caller of `Peer::setStateValue` or
`Peer::callMethod`.

The owner builds the response in `handleMessage`, the daemon passes it on
under another id (`PassedOn`), and the requester decodes it.  What the two
sides have in common is the document, so each result is a round trip:

* an exception arrives as it was thrown (`errors_survive`);
* of a result only the code arrives: nobody reads the message of a warning
  (`setStateValue_result_iff`).

The first lemma finds the response among the telegrams of the owner: it is
the one with an id.
-/
import JetPeer.Answers
import JetPeer.SyncCalls

namespace JetPeer

variable {env : Env} {data response doc : Json} {s u : Peer} {path : String} {before : List Json}

/-! ### The response on its way -/

/-- `doc` is `response` under the id of the requester. -/
def PassedOn (response doc : Json) : Prop := ∃ id, doc = response.set Jsonrpc.id id

theorem PassedOn.hasMembers (h : PassedOn response doc) : HasMembers doc := by
  obtain ⟨id, rfl⟩ := h
  exact .inr (Json.set_eq_object _ _ _)

theorem PassedOn.member (h : PassedOn response doc) {key : String} (hkey : key ≠ Jsonrpc.id) :
    doc.member key = response.member key := by
  obtain ⟨id, rfl⟩ := h
  exact Json.member_set_of_ne _ hkey

theorem PassedOn.isError (h : PassedOn response doc) : isError doc = isError response := by
  obtain ⟨id, rfl⟩ := h
  exact Json.isMember_set_of_ne _ (by decide)

/-- The owner responds with `response`: the last telegram `handleMessage` sends
for the request, with the id of the request. -/
structure Responds (env : Env) (data : Json) (s : Peer) (response : Json) : Prop where
  sent : ∃ before, (handleMessage env data s).1.sent = s.sent ++ before ++ [response]
  id : (response.member Jsonrpc.id).isNull = false

/-- Where a branch ends in `respond`, that is where the response comes from. -/
theorem eq_withRequestId {body : Json} (pre : List Json) (hpre : u.sent = s.sent ++ pre)
    (hnull : ∀ d ∈ pre, d.member Jsonrpc.id = .null)
    (hsent : (respond env data body u).sent = s.sent ++ before ++ [response])
    (hid : (response.member Jsonrpc.id).isNull = false) : response = withRequestId data body := by
  rcases @respond_cases env data u body with h | h
  · -- nothing with an id was sent
    rw [h, hpre, List.append_assoc] at hsent
    have hmem : response ∈ pre := by
      rw [List.append_cancel_left hsent]
      simp
    rw [hnull response hmem] at hid
    cases hid
  · rw [h] at hsent
    -- the response is the last telegram in either reading
    have hlast := congrArg List.getLast? hsent
    simp only [List.getLast?_append, List.getLast?_singleton, Option.some_or] at hlast
    exact (Option.some.inj hlast).symm

/-! ### Errors -/

/-- The entry of `path` is called for the request, and throws. -/
def Throws (env : Env) (data : Json) (path : String) (s : Peer) (t : Thrown) : Prop :=
  (∃ cb, s.registry.tables.stateCallbacks.lookup path = some (some cb) ∧ HasValue data ∧
      (env.stateCallback cb ((data.member Jsonrpc.params).member Word.value) path
        s.registry).1 = .error t) ∨
    (s.registry.tables.stateCallbacks.lookup path = none ∧
      ∃ cb, s.registry.tables.methodCallbacks.lookup path = some (some cb) ∧
        (env.methodCallback cb (data.member Jsonrpc.params) s.registry).1 = .error t)

/-- The response to a callback that threw is the catch clause's, on an empty
response or on one with a result. -/
theorem response_of_throws {t : Thrown} (hserved : Served data path s)
    (hthrows : Throws env data path s t) (hresponds : Responds env data s response) :
    ∃ v : Json, v.member Jsonrpc.err = .null ∧ response = withRequestId data (catchLadder v t) := by
  obtain ⟨⟨before, hsent⟩, hid⟩ := hresponds
  rcases @handleMessage_served env data s path hserved with
    ⟨callback, hs, ⟨hhas, hm⟩ | ⟨hno, hm⟩⟩ | ⟨hs, callback, hc, hm⟩
  · rcases hthrows with ⟨cb, hcb, -, hout⟩ | ⟨hnone, -⟩
    · obtain rfl : callback = some cb := Option.some.inj (hs.symm.trans hcb)
      refine ⟨.null, rfl, ?_⟩
      rw [hm] at hsent
      rcases ho : env.stateCallback cb ((data.member Jsonrpc.params).member Word.value) path
        s.registry with ⟨outcome, a⟩
      rw [ho] at hout
      obtain rfl : outcome = .error t := hout
      simp only [handleState, ho] at hsent
      exact eq_withRequestId [] (List.append_nil _).symm (by simp) hsent hid
    · rw [hs] at hnone
      cases hnone
  · rcases hthrows with ⟨cb, hcb, hhas, -⟩ | ⟨hnone, -⟩
    · exact absurd hhas hno
    · rw [hs] at hnone
      cases hnone
  · rcases hthrows with ⟨cb, hcb, -⟩ | ⟨-, cb, hcb, hout⟩
    · rw [hs] at hcb
      cases hcb
    · obtain rfl : callback = some cb := Option.some.inj (hc.symm.trans hcb)
      -- a result may stand in the response by now, but no error
      refine ⟨if env.resultFirst then Json.null.set Jsonrpc.result .null else .null, ?_, ?_⟩
      · split_ifs <;> rfl
      · rw [hm] at hsent
        rcases ho : env.methodCallback cb (data.member Jsonrpc.params) s.registry with
          ⟨outcome, a⟩
        rw [ho] at hout
        obtain rfl : outcome = .error t := hout
        simp only [handleMethod, ho] at hsent
        exact eq_withRequestId [] (List.append_nil _).symm (by simp) hsent hid

/-- The exceptions that have a code of their own, as the requester gets them:
a plain `jsonrpcException` has no data. -/
def Thrown.asJsoncpprpc : Thrown → Option JsoncpprpcException
  | .jsoncpprpc e => some e
  | .jsonrpc e => some ⟨e.code, e.message, .null⟩
  | _ => none

/-- A response with an error that can be read is thrown. -/
theorem throws_of_ofResponse {e : JsoncpprpcException} (herr : isError doc = true)
    (h : JsoncpprpcException.ofResponse doc = .ok e) :
    setStateValuePrivate doc = .threw e ∧ callMethodPrivate doc = .threw e := by
  simp only [setStateValuePrivate, callMethodPrivate, resultOrThrow, herr, if_true,
    Ending.throwResponse, h, and_self]

/-- **Errors survive**: what the callback of a state or method threw is what
the requester gets, the entries it was built from included. -/
theorem errors_survive {t : Thrown} {e : JsoncpprpcException} (hserved : Served data path s)
    (hthrows : Throws env data path s t) (he : t.asJsoncpprpc = some e) (hcode : IsInt e.code)
    (hresponds : Responds env data s response) (hdoc : PassedOn response doc) :
    setStateValuePrivate doc = .threw e ∧ callMethodPrivate doc = .threw e ∧
      ∀ entries : JsoncpprpcException.DataEntries,
        (∀ k entry, entries.lookup k = some entry → IsInt entry.code) →
        e = JsoncpprpcException.ofDataEntries entries →
          ∃ r, e.dataEntries = .ok r ∧ ∀ k, r.lookup k = entries.lookup k := by
  obtain ⟨v, hv, rfl⟩ := response_of_throws hserved hthrows hresponds
  -- neither the id of the owner nor that of the requester touches the error
  have hbody : doc.member Jsonrpc.err = (catchLadder v t).member Jsonrpc.err :=
    (hdoc.member (by decide)).trans (Json.member_set_of_ne _ (by decide))
  have herror : isError doc = isError (catchLadder v t) :=
    hdoc.isError.trans (Json.isMember_set_of_ne _ (by decide))
  have hread : isError doc = true ∧ JsoncpprpcException.ofResponse doc = .ok e := by
    cases t with
    | jsoncpprpc e' =>
        obtain rfl := Option.some.inj he
        refine ⟨herror.trans (hasResult_json e').2, ?_⟩
        exact JsoncpprpcException.ofResponse_json hcode hdoc.hasMembers hbody
    | jsonrpc e' =>
        obtain rfl := Option.some.inj he
        refine ⟨herror.trans (isError_withError _ _ _), ?_⟩
        exact JsoncpprpcException.ofResponse_withError hcode hv hdoc.hasMembers hbody
    | _ => cases he
  obtain ⟨hset, hcall⟩ := throws_of_ofResponse hread.1 hread.2
  refine ⟨hset, hcall, fun entries hentries heq => ?_⟩
  exact JsoncpprpcException.lookup_dataEntries hentries (congrArg JsoncpprpcException.data heq)

/-- An exception with one entry. -/
def oneEntry : JsoncpprpcException :=
  .ofDataEntries (AList.insert "par" ⟨-2, "minus two"⟩ ∅)

/-- The callback of the state throws it. -/
def failingEnv : Env :=
  { plainEnv with stateCallback := fun _ _ _ r =>
      (.error (.jsoncpprpc oneEntry), { registry := r }) }

set_option maxRecDepth 4000 in
theorem failingEnv_responds : Responds failingEnv (setRequest [("value", .bool true)]) servingPeer
    (withRequestId (setRequest []) oneEntry.json) := by
  have hfits : Fits failingEnv (withRequestId (setRequest []) oneEntry.json) := by
    unfold Fits
    decide +kernel
  have hsend := @sendMessage_eq_ok failingEnv (withRequestId (setRequest []) oneEntry.json)
    (servingPeer.log (.state "p" (some 0) (.bool true) false)) rfl hfits
  refine ⟨⟨[], ?_⟩, rfl⟩
  show Peer.sent (trySend failingEnv (withRequestId (setRequest []) oneEntry.json)
    (servingPeer.log (.state "p" (some 0) (.bool true) false))) = _
  rw [trySend, hsend]
  rfl

theorem errors_survive_one :
    setStateValuePrivate (oneEntry.json.set "id" (.uint 7)) = .threw oneEntry := by
  refine (errors_survive (t := .jsoncpprpc oneEntry) (setRequest_served [("value", .bool true)])
    ?_ rfl (by decide) failingEnv_responds ?_).1
  · exact .inl ⟨0, rfl, ⟨⟨_, rfl⟩, rfl⟩, rfl⟩
  · exact ⟨.uint 7, rfl⟩

/-! ### Results -/

/-- `sendMessage` takes the notification of the change, if there is one. -/
def ChangeAccepted (env : Env) (path : String) (value : Json) : Prop :=
  value.isNull = true ∨
    (Fits env (changeNotification path value) ∧
      env.socketError (changeNotification path value) = none)

/-- What the requester reads from the result of a response. -/
theorem setStateValuePrivate_eq (hdoc : HasMembers doc) (herr : isError doc = false) :
    setStateValuePrivate doc =
      setStateValuePrivate (.object [(Jsonrpc.result, doc.member Jsonrpc.result)]) := by
  have hcode : warningCode doc =
      warningCode (.object [(Jsonrpc.result, doc.member Jsonrpc.result)]) := by
    rw [warningCode, hdoc.at_eq]
    rfl
  have herr' : isError (.object [(Jsonrpc.result, doc.member Jsonrpc.result)]) = false := rfl
  simp only [setStateValuePrivate, herr, herr', hcode, Bool.false_eq_true, if_false]

/-- Of a successful response the code is read, and nothing else. -/
theorem setStateValuePrivate_success {r : SetStateResult} (hcode : IsInt r.code)
    (hdoc : HasMembers doc) (herr : isError doc = false)
    (hresult : doc.member Jsonrpc.result = (successResponse r).member Jsonrpc.result) :
    setStateValuePrivate doc = .returned { code := r.code } := by
  rw [setStateValuePrivate_eq hdoc herr, hresult]
  have hint : (Json.int r.code).isInt = true := decide_eq_true hcode
  have hread : ∀ w : Json, w.member Jsonrpc.code = .int r.code → HasMembers w →
      setStateValuePrivate (.object [(Jsonrpc.result, .object [(Word.warning, w)])])
        = .returned { code := r.code } := by
    intro w hw hmembers
    have hcode' : warningCode (.object [(Jsonrpc.result, .object [(Word.warning, w)])])
        = .ok (.int r.code) := by
      rw [← hw]
      exact hmembers.at_eq _
    have herr' : isError (.object [(Jsonrpc.result, .object [(Word.warning, w)])]) = false := rfl
    simp only [setStateValuePrivate, herr', hcode', Bool.false_eq_true, if_false, Except.bind, hint,
      if_true, asInt_of_isInt hcode]
    rfl
  -- a result without a code has no warning at all
  unfold successResponse
  by_cases hzero : r.code = 0
  · rw [if_neg (not_not.mpr hzero), hzero]
    rfl
  · rw [if_pos hzero]
    by_cases hmessage : r.message = ""
    · rw [if_neg (not_not.mpr hmessage)]
      exact hread (.object [(Jsonrpc.code, .int r.code)]) rfl (.inr ⟨_, rfl⟩)
    · rw [if_pos hmessage]
      exact hread (.object [(Jsonrpc.code, .int r.code), (Jsonrpc.message, .string r.message)])
        rfl (.inr ⟨_, rfl⟩)

/-- The response to a callback that returned: its result, or the error of the
notification. -/
theorem response_of_returns {cb : Callback} {r : SetStateCbResult} (hserved : Served data path s)
    (hvalue : HasValue data)
    (hs : s.registry.tables.stateCallbacks.lookup path = some (some cb))
    (hcb : (env.stateCallback cb ((data.member Jsonrpc.params).member Word.value) path
      s.registry).1 = .ok r)
    (hresponds : Responds env data s response) :
    (ChangeAccepted env path r.value ∧
        response = withRequestId data (successResponse r.result)) ∨
      (¬ ChangeAccepted env path r.value ∧
        ∃ e, response = withRequestId data (catchLadder .null e)) := by
  obtain ⟨⟨before, hsent⟩, hid⟩ := hresponds
  rcases @handleMessage_served env data s path hserved with
    ⟨callback, hs', ⟨-, hm⟩ | ⟨hno, -⟩⟩ | ⟨hs', -⟩
  · obtain rfl : callback = some cb := Option.some.inj (hs'.symm.trans hs)
    rw [hm] at hsent
    rcases ho : env.stateCallback cb ((data.member Jsonrpc.params).member Word.value) path
      s.registry with ⟨outcome, a⟩
    rw [ho] at hcb
    obtain rfl : outcome = .ok r := hcb
    simp only [handleState, ho] at hsent
    by_cases hnull : r.value.isNull = true
    · rw [if_pos hnull] at hsent
      exact .inl ⟨.inl hnull,
        eq_withRequestId [] (List.append_nil _).symm (by simp) hsent hid⟩
    · rw [if_neg hnull] at hsent
      by_cases hacc : Fits env (changeNotification path r.value) ∧
        env.socketError (changeNotification path r.value) = none
      · -- the notification has no id
        rw [sendMessage_eq_ok hacc.2 hacc.1] at hsent
        refine .inl ⟨.inr hacc, eq_withRequestId [changeNotification path r.value] rfl ?_ hsent hid⟩
        intro d hd
        rw [List.mem_singleton.mp hd]
        exact member_id_changeNotification _ _
      · -- `sendMessage` throws, and the catch clauses of the callback answer with that
        obtain ⟨e, he⟩ := sendMessage_not_accepted (s := (s.after a).log (.state path (some cb)
          ((data.member Jsonrpc.params).member Word.value) true)) hacc
        rw [he] at hsent
        refine .inr ⟨fun h => h.elim hnull hacc, .jsonrpc e, ?_⟩
        exact eq_withRequestId [] (List.append_nil _).symm (by simp) hsent hid
  · exact absurd hvalue hno
  · rw [hs] at hs'
    cases hs'

/-- **A result reaches the setter** if and only if it has no message and the
change was notified. -/
theorem setStateValue_result_iff {cb : Callback} {r : SetStateCbResult}
    (hserved : Served data path s) (hvalue : HasValue data)
    (hs : s.registry.tables.stateCallbacks.lookup path = some (some cb))
    (hcb : (env.stateCallback cb ((data.member Jsonrpc.params).member Word.value) path
      s.registry).1 = .ok r)
    (hcode : IsInt r.result.code) (hresponds : Responds env data s response)
    (hdoc : PassedOn response doc) :
    setStateValuePrivate doc = .returned r.result ↔
      r.result.message = "" ∧ ChangeAccepted env path r.value := by
  rcases response_of_returns hserved hvalue hs hcb hresponds with ⟨hacc, rfl⟩ | ⟨hacc, e, rfl⟩
  · have herr : isError doc = false :=
      hdoc.isError.trans ((Json.isMember_set_of_ne _ (by decide)).trans
        (hasResult_successResponse r.result).2)
    have hread := setStateValuePrivate_success hcode hdoc.hasMembers herr
      ((hdoc.member (by decide)).trans (Json.member_set_of_ne _ (by decide)))
    rw [hread]
    constructor
    · intro h
      have hr : ({ code := r.result.code } : SetStateResult) = r.result := Ending.returned.inj h
      exact ⟨by rw [← hr], hacc⟩
    · rintro ⟨hmessage, -⟩
      rw [← hmessage]
  · -- an error never returns
    have herr : isError doc = true :=
      hdoc.isError.trans ((Json.isMember_set_of_ne _ (by decide)).trans (hasResult_catchLadder e).2)
    refine ⟨fun h => ?_, fun h => absurd h.2 hacc⟩
    simp only [setStateValuePrivate, herr, if_true, Ending.throwResponse] at h
    split at h <;> cases h

/-! ### An adapted value -/

/-- The callback of the state returns a warning with this message. -/
def adaptingEnv (message : String) : Env :=
  { plainEnv with stateCallback := fun _ _ _ r =>
      (.ok { result := { code := 1, message := message } }, { registry := r }) }

theorem adaptingEnv_responds (message : String)
    (hfits : Fits plainEnv (withRequestId (setRequest []) (successResponse ⟨1, message⟩))) :
    Responds (adaptingEnv message) (setRequest [("value", .bool true)]) servingPeer
      (withRequestId (setRequest []) (successResponse ⟨1, message⟩)) := by
  have hsend := @sendMessage_eq_ok (adaptingEnv message)
    (withRequestId (setRequest []) (successResponse ⟨1, message⟩))
    (servingPeer.log (.state "p" (some 0) (.bool true) true)) rfl hfits
  refine ⟨⟨[], ?_⟩, by rw [withRequestId, Json.member_set_self]; rfl⟩
  show Peer.sent (trySend (adaptingEnv message)
    (withRequestId (setRequest []) (successResponse ⟨1, message⟩))
    (servingPeer.log (.state "p" (some 0) (.bool true) true))) = _
  rw [trySend, hsend]
  rfl

theorem setStateValue_result_iff_adapted :
    setStateValuePrivate ((withRequestId (setRequest []) (successResponse ⟨1, ""⟩)).set
      Jsonrpc.id (.uint 1)) = .returned ⟨1, ""⟩ :=
  (setStateValue_result_iff (r := { result := ⟨1, ""⟩ })
    (setRequest_served [("value", .bool true)]) ⟨⟨_, rfl⟩, rfl⟩ rfl rfl (by decide)
    (adaptingEnv_responds "" (by unfold Fits; decide +kernel)) ⟨.uint 1, rfl⟩).mpr ⟨rfl, .inl rfl⟩

/-- The message of a warning is lost. -/
theorem warning_message_is_lost :
    ∃ (env : Env) (data : Json) (path : String) (s : Peer) (cb : Callback) (r : SetStateCbResult)
      (response doc : Json), Served data path s ∧ HasValue data ∧
        s.registry.tables.stateCallbacks.lookup path = some (some cb) ∧
        (env.stateCallback cb ((data.member Jsonrpc.params).member Word.value) path
          s.registry).1 = .ok r ∧
        IsInt r.result.code ∧ r.result.code ≠ 0 ∧ Responds env data s response ∧
        PassedOn response doc ∧ setStateValuePrivate doc ≠ .returned r.result := by
  refine ⟨adaptingEnv "mod 10", setRequest [("value", .bool true)], "p", servingPeer, 0, _,
    _, _, setRequest_served _, ⟨⟨_, rfl⟩, rfl⟩, rfl, rfl, by decide, by decide,
    adaptingEnv_responds _ (by unfold Fits; decide +kernel), ⟨.uint 7, rfl⟩, fun h => ?_⟩
  have hread : setStateValuePrivate
      ((withRequestId (setRequest []) (successResponse ⟨1, "mod 10"⟩)).set "id" (.uint 7)) =
        .returned ⟨1, ""⟩ :=
    setStateValuePrivate_success (r := ⟨1, "mod 10"⟩) (by decide) (.inr ⟨_, rfl⟩) rfl rfl
  have hmessage := congrArg SetStateResult.message (Ending.returned.inj (hread.symm.trans h))
  exact absurd hmessage (by decide)

end JetPeer
