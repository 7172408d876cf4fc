/-
JetPeer/Diagnostics.lean

What the one who catches a `jsoncpprpcException` learns.

A synchronous operation turns an error response into an exception.  Six of
them do so in a branch of their own, and the response comes from the daemon,
from a send that failed or from `AsyncRequest::clear` (`ErrorAnswer`).  The
exception has the code, the message and the data of the response in all but
`addMethod`, as long as the code is an `int` (`throws_answer_iff`).

An exception that is logged shows its `what()`.  Each of the four
constructors makes that text itself, and the one from a map of entries makes
none; so an exception that was sent and decoded is the one it was, its text
included, unless it came from a map (`redecoded_iff`).
-/
import JetPeer.Dispatch
import JetPeer.SyncCalls

namespace JetPeer

/-! ### Error responses -/

/-- `v` is the number `n`, in any of the types a number may have. -/
def IsInteger (v : Json) (n : Int) : Prop :=
  v = .int n ∨ (∃ m : ℕ, n = m ∧ v = .uint m) ∨ v = .real n

/-- An error response: an integer code, a message, and any data or none. -/
structure WellFormedError (response : Json) (code : Int) (message : String) (data : Json) :
    Prop where
  object : ∃ ms, response = .object ms
  isError : isError response = true
  code : IsInteger ((response.member Jsonrpc.err).member Jsonrpc.code) code
  message : (response.member Jsonrpc.err).member Jsonrpc.message = .string message
  data : (response.member Jsonrpc.err).member Jsonrpc.data = data

/-- The errors a synchronous operation gets, by where they are made. -/
inductive ErrorAnswer : Json → Int → String → Json → Prop
  | daemon {response code message data} : WellFormedError response code message data →
      ErrorAnswer response code message data
  | failedSend {env : Env} {value : Json} {s : Peer} {e : JsonrpcException} (id : UInt32) :
      sendMessage env value s = .error e →
      ErrorAnswer (errorResponse id e.code e.message) e.code e.message .null
  | cancelled (id : UInt32) :
      ErrorAnswer (cancelResponse id) (-1) "jet request has been canceled without response!" .null

section Errors

variable {response : Json} {code : Int} {message : String} {data : Json}

/-- A synthesized error has the form of one of the daemon. -/
theorem wellFormed_errorResponse (id : UInt32) (code : Int) (message : String) :
    WellFormedError (errorResponse id code message) code message .null := by
  have herr : (errorResponse id code message).member Jsonrpc.err =
      (Json.null.set Jsonrpc.code (.int code)).set Jsonrpc.message (.string message) :=
    JsoncpprpcException.member_err_withError _ _ _
  refine ⟨errorResponse_eq_object _ _ _, isError_errorResponse _ _ _, .inl ?_, ?_, ?_⟩
  · rw [herr, Json.member_set_of_ne _ (by decide), Json.member_set_self]
  · rw [herr, Json.member_set_self]
  · rw [herr, Json.member_set_of_ne _ (by decide), Json.member_set_of_ne _ (by decide)]
    rfl

theorem ErrorAnswer.wellFormed (h : ErrorAnswer response code message data) :
    WellFormedError response code message data := by
  cases h with
  | daemon h => exact h
  | failedSend id h => exact wellFormed_errorResponse id _ _
  | cancelled id => exact wellFormed_errorResponse id _ _

/-- A whole number is truncated to itself. -/
theorem truncate_intCast (n : Int) : Json.truncate (n : ℚ) = n := by
  unfold Json.truncate
  split_ifs
  · exact Int.ceil_intCast n
  · exact Int.floor_intCast n

/-- An integer is read if and only if it fits. -/
theorem asInt_of_isInteger {v : Json} {n : Int} (h : IsInteger v n) {k : Int} :
    v.asInt = .ok k ↔ k = n ∧ IsInt n := by
  have key : ∀ {p : Prop} [Decidable p], (p ↔ IsInt n) →
      ((if p then Except.ok n else .error LogicError.outOfRange) = .ok k ↔ k = n ∧ IsInt n) := by
    intro p _ hp
    rw [ite_eq_ok, hp, and_comm, eq_comm]
  rcases h with rfl | ⟨m, rfl, rfl⟩ | rfl
  · exact key Iff.rfl
  · refine key ⟨fun h => ⟨?_, h⟩, And.right⟩
    exact (by decide : minInt ≤ 0).trans (Int.natCast_nonneg m)
  · show (if (minInt : ℚ) ≤ n ∧ (n : ℚ) ≤ maxInt then Except.ok (Json.truncate n)
      else .error LogicError.outOfRange) = .ok k ↔ _
    rw [truncate_intCast]
    exact key (by rw [Int.cast_le, Int.cast_le, IsInt])

/-- What the constructor makes of a well-formed error. -/
theorem ofResponse_eq_ok_of_wellFormed (h : WellFormedError response code message data)
    {e : JsoncpprpcException} :
    JsoncpprpcException.ofResponse response = .ok e ↔ e = ⟨code, message, data⟩ ∧ IsInt code := by
  have hmembers : HasMembers response := .inr h.object
  have herr : HasMembers (response.member Jsonrpc.err) := by
    refine (at_eq_ok_iff Jsonrpc.message).mp ?_
    rcases hv : response.member Jsonrpc.err with _ | _ | _ | _ | _ | _ | _ | ms
    all_goals first | exact ⟨_, rfl⟩ | (have hm := h.message; rw [hv] at hm; cases hm)
  have hmessage : ((response.member Jsonrpc.err).member Jsonrpc.message).asString
      = .ok message := by
    rw [h.message]
    rfl
  rw [JsoncpprpcException.ofResponse_eq_ok, readError_eq_ok, asInt_of_isInteger h.code, h.data]
  constructor
  · rintro ⟨-, ⟨-, ⟨hcode, hint⟩, hm⟩, hdata⟩
    rw [hmessage] at hm
    cases e with
    | mk c m d =>
        cases hcode
        cases hm
        cases hdata
        exact ⟨rfl, hint⟩
  · rintro ⟨rfl, hint⟩
    exact ⟨hmembers, ⟨herr, ⟨rfl, hint⟩, hmessage⟩, rfl⟩

theorem throwResponse_eq_threw (h : WellFormedError response code message data) {α : Type*} :
    (Ending.throwResponse response : Ending α) = .threw ⟨code, message, data⟩ ↔ IsInt code := by
  have hiff := ofResponse_eq_ok_of_wellFormed h (e := ⟨code, message, data⟩)
  rcases hr : JsoncpprpcException.ofResponse response with e | e
  · have hno : ¬ IsInt code := fun hint => by
      rw [hr] at hiff
      exact absurd (hiff.mpr ⟨rfl, hint⟩) (by simp)
    simp [Ending.throwResponse, hr, hno]
  · obtain ⟨rfl, hint⟩ := (ofResponse_eq_ok_of_wellFormed h).mp hr
    simp [Ending.throwResponse, hr, hint]

end Errors

/-! ### Errors that are thrown -/

/-- A member is smaller than the object it is in. -/
theorem sizeOf_member_lt {v : Json} {key : String} (h : v.isMember key = true) :
    sizeOf (v.member key) < sizeOf v := by
  cases v with
  | object ms =>
      obtain ⟨x, hx⟩ := Option.isSome_iff_exists.mp h
      have hmember : (Json.object ms).member key = x := by
        simp only [Json.member, hx, Option.getD_some]
      obtain ⟨l₁, l₂, rfl, -⟩ := List.lookup_eq_some_iff.mp hx
      have hmem : (key, x) ∈ l₁ ++ (key, x) :: l₂ := List.mem_append_right l₁ List.mem_cons_self
      have hlist := List.sizeOf_lt_of_mem hmem
      rw [hmember]
      simp only [Json.object.sizeOf_spec, Prod.mk.sizeOf_spec] at hlist ⊢
      omega
  | _ => cases h

/-- The data of an error is never the response it is in. -/
theorem WellFormedError.data_ne {response : Json} {code : Int} {message : String} {data : Json}
    (h : WellFormedError response code message data) : data ≠ response := by
  intro heq
  have herr : sizeOf (response.member Jsonrpc.err) < sizeOf response :=
    sizeOf_member_lt h.isError
  rcases hd : (response.member Jsonrpc.err).isMember Jsonrpc.data with - | -
  · -- no data: null, and the response is an object
    obtain ⟨ms, hms⟩ := h.object
    have hnull := h.data.symm.trans (Json.member_eq_null hd)
    rw [heq, hms] at hnull
    cases hnull
  · have hdata := sizeOf_member_lt hd
    rw [h.data, heq] at hdata
    omega

/-- **The error of an answer is thrown as it is** by every operation but
`addMethod`, if its code is an `int`. -/
theorem throws_answer_iff {response : Json} {code : Int} {message : String} {data : Json}
    (h : ErrorAnswer response code message data) (op : Operation) (prettyFunction : String)
    (fetchId : FetchId) :
    op.run prettyFunction fetchId response = .threw ⟨code, message, data⟩ ↔
      op ≠ .addMethod ∧ IsInt code := by
  have hw := h.wellFormed
  have hvoid : ∀ {α : Type} {x : Ending α} {e : JsoncpprpcException},
      x.void = .threw e ↔ x = .threw e := by
    intro α x e
    cases x <;> simp [Ending.void]
  cases op with
  | addMethod =>
      -- the exception has the response for its data
      simp only [Operation.run, addMethodPrivate, hw.isError, if_true, ne_eq, not_true, false_and,
        iff_false, JsoncpprpcException.ofCodeData, Ending.threw.injEq]
      intro heq
      exact hw.data_ne (congrArg JsoncpprpcException.data heq).symm
  | _ =>
      simp only [Operation.run, JetPeer.authenticate, callMethodPrivate, resultOrThrow,
        addStatePrivate, JetPeer.addFetch, setStateValuePrivate, hw.isError, if_true, hvoid,
        throwResponse_eq_threw hw]
      exact ⟨fun hint => ⟨by simp, hint⟩, And.right⟩

/-- A rejected set, with data. -/
theorem throws_answer_iff_rejected :
    Operation.setStateValue.run "" 0
        (.object [("error", .object [("code", .int (-3)), ("data", .bool true),
          ("message", .string "no")])])
      = .threw ⟨-3, "no", .bool true⟩ :=
  (throws_answer_iff
    (.daemon ⟨⟨_, rfl⟩, rfl, .inl rfl, rfl, rfl⟩) .setStateValue "" 0).mpr ⟨by decide, by decide⟩

/-- A rejected method: neither code nor message nor data are those of the
daemon. -/
theorem rejected_method_hides_error :
    ¬ ∀ (response : Json) (code : Int) (message : String) (data : Json),
      ErrorAnswer response code message data → ∀ (op : Operation) (prettyFunction : String)
        (fetchId : FetchId),
        op.run prettyFunction fetchId response = .threw ⟨code, message, data⟩ := by
  intro h
  have hrun := h (.object [("error", .object [("code", .int (-3)), ("message", .string "no")])])
    (-3) "no" .null (.daemon ⟨⟨_, rfl⟩, rfl, .inl rfl, rfl, rfl⟩) .addMethod "addMethodPrivate" 0
  cases hrun

/-! ### The text of an exception -/

/-- A `jsoncpprpcException` with its `m_what`. -/
structure Described extends JsoncpprpcException where
  what : String := ""

namespace Described

/-- `"code: " + std::to_string(code) + ", message: " + message`. -/
def codeText (code : Int) (message : String) : String :=
  "code: " ++ toString code ++ ", message: " ++ message

variable (toStyledString : Json → String)

/-- The same with the data, if there are any. -/
def dataText (e : JsoncpprpcException) : String :=
  let what := codeText e.code e.message
  if e.data.isNull then what else what ++ (", data: " ++ toStyledString e.data)

/-- `jsoncpprpcException(const Json::Value& error) noexcept`. -/
def ofResponse (error : Json) : Except LogicError Described :=
  (JsoncpprpcException.ofResponse error).map fun e => ⟨e, dataText toStyledString e⟩

/-- `jsoncpprpcException(int code, const std::string& message) noexcept`. -/
def ofCode (code : Int) (message : String) : Described :=
  ⟨JsoncpprpcException.ofCode code message, codeText code message⟩

/-- `jsoncpprpcException(int code, const std::string& message, const Json::Value& data)
noexcept`. -/
def ofCodeData (code : Int) (message : String) (data : Json) : Described :=
  let e := JsoncpprpcException.ofCodeData code message data
  ⟨e, dataText toStyledString e⟩

/-- `jsoncpprpcException(DataEntries& data) noexcept`; `m_what` is left as it is. -/
def ofDataEntries (data : JsoncpprpcException.DataEntries) : Described where
  toJsoncpprpcException := JsoncpprpcException.ofDataEntries data

end Described

/-- A value of `int`. -/
abbrev CInt := {n : Int // IsInt n}

/-- A call of one of the four constructors. -/
inductive Construction where
  | fromResponse (error : Json)
  | fromCode (code : CInt) (message : String)
  | fromCodeData (code : CInt) (message : String) (data : Json)
  | fromDataEntries (data : JsoncpprpcException.DataEntries)

namespace Construction

variable (toStyledString : Json → String)

/-- The object built; an error is raised inside of a `noexcept` constructor. -/
def build : Construction → Except LogicError Described
  | .fromResponse error => Described.ofResponse toStyledString error
  | .fromCode code message => .ok (Described.ofCode code.1 message)
  | .fromCodeData code message data => .ok (Described.ofCodeData toStyledString code.1 message data)
  | .fromDataEntries data => .ok (Described.ofDataEntries data)

def FromDataEntries : Construction → Prop
  | .fromDataEntries _ => True
  | _ => False

end Construction

section Texts

variable {toStyledString : Json → String} {e : Described}

/-- A number read by `asInt` is an `int`. -/
theorem isInt_of_asInt {v : Json} {n : Int} (h : v.asInt = .ok n) : IsInt n := by
  have hite : ∀ {p : Prop} [Decidable p] {k : Int}, (p → IsInt k) →
      (if p then Except.ok k else .error LogicError.outOfRange) = .ok n → IsInt n := by
    intro p _ k hk h
    obtain ⟨hp, rfl⟩ := ite_eq_ok.mp h
    exact hk hp
  have hlow : (minInt : Int) ≤ 0 := by decide
  cases v with
  | int k => exact hite id h
  | uint k => exact hite (fun hk => ⟨hlow.trans (Int.natCast_nonneg k), hk⟩) h
  | real r =>
      refine hite (fun hr => ?_) h
      unfold Json.truncate
      -- the bounds are whole numbers, so rounding stays between them
      split_ifs with hneg
      · exact ⟨Int.cast_le.mp (hr.1.trans (Int.le_ceil r)), Int.ceil_le.mpr hr.2⟩
      · exact ⟨Int.le_floor.mpr hr.1, Int.cast_le.mp ((Int.floor_le r).trans hr.2)⟩
  | null => cases h; decide
  | bool b => cases b <;> cases h <;> decide
  | _ => cases h

/-- What was built has an `int` for its code. -/
theorem Construction.isInt_code {c : Construction} (h : c.build toStyledString = .ok e) :
    IsInt e.code := by
  cases c with
  | fromResponse error =>
      obtain ⟨x, hx, rfl⟩ := map_eq_ok.mp h
      exact isInt_of_asInt (readError_eq_ok.mp (JsoncpprpcException.ofResponse_eq_ok.mp hx).2.1).2.1
  | fromCode code message => cases h; exact code.2
  | fromCodeData code message data => cases h; exact code.2
  | fromDataEntries data => cases h; exact (by decide : IsInt (-1))

/-- Decoding makes the text anew. -/
theorem Described.ofResponse_json (h : IsInt e.code) :
    Described.ofResponse toStyledString e.json = .ok
      ⟨e.toJsoncpprpcException, Described.dataText toStyledString e.toJsoncpprpcException⟩ := by
  have hdoc : HasMembers e.json := by
    rw [JsoncpprpcException.json, Json.modify]
    exact .inr (Json.set_eq_object _ _ _)
  rw [Described.ofResponse, JsoncpprpcException.ofResponse_json h hdoc rfl]
  rfl

theorem Described.dataText_ne_empty (e : JsoncpprpcException) :
    Described.dataText toStyledString e ≠ "" := by
  intro h
  have hlength := congrArg String.length h
  unfold Described.dataText Described.codeText at hlength
  split_ifs at hlength <;> simp [String.length_append] at hlength

/-- A constructor makes the text that describes the exception, or none. -/
theorem Construction.what_eq_iff {c : Construction} (h : c.build toStyledString = .ok e) :
    e.what = Described.dataText toStyledString e.toJsoncpprpcException ↔ ¬ c.FromDataEntries := by
  cases c with
  | fromResponse error =>
      obtain ⟨x, hx, rfl⟩ := map_eq_ok.mp h
      exact iff_of_true rfl id
  | fromCode code message => cases h; exact iff_of_true rfl id
  | fromCodeData code message data => cases h; exact iff_of_true rfl id
  | fromDataEntries data =>
      cases h
      refine iff_of_false (fun hwhat => ?_) (fun hno => hno trivial)
      exact Described.dataText_ne_empty _ hwhat.symm

/-- **Decoding reproduces an exception**, its text included, if and only if it
was not built from a map of entries. -/
theorem redecoded_iff {c : Construction} (h : c.build toStyledString = .ok e) :
    Described.ofResponse toStyledString e.json = .ok e ↔ ¬ c.FromDataEntries := by
  rw [Described.ofResponse_json (c.isInt_code h), ← c.what_eq_iff h]
  constructor
  · intro heq
    exact (congrArg Described.what (Except.ok.inj heq)).symm
  · intro hwhat
    rw [← hwhat]

/-- An exception from code, message and data. -/
theorem redecoded_iff_codeData :
    Described.ofResponse (fun _ => "true\n")
        (Described.ofCodeData (fun _ => "true\n") (-3) "no" (.bool true)).json
      = .ok (Described.ofCodeData (fun _ => "true\n") (-3) "no" (.bool true)) :=
  (redecoded_iff (c := .fromCodeData ⟨-3, by decide⟩ "no" (.bool true)) rfl).mpr id

/-- The empty map already makes an exception that says nothing until it is
decoded. -/
theorem entries_not_redecoded :
    ¬ ∀ (toStyledString : Json → String) (c : Construction) (e : Described),
      c.build toStyledString = .ok e → Described.ofResponse toStyledString e.json = .ok e := by
  intro h
  have hempty := h (fun _ => "") (.fromDataEntries ∅) _ rfl
  have hwhat := congrArg (fun r => r.toOption.map Described.what) hempty
  exact absurd hwhat (by decide)

end Texts

end JetPeer
