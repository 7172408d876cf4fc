/-
JetPeer/Requests.lean

`lib/asyncrequest.cpp`, `lib/syncrequest.cpp`: request documents and the
static members of `AsyncRequest`.

The table of open requests belongs to the process, not to a peer.  Each
function below is what one critical section does to it:

    enter            `execute`: the next id, `m_openRequestCbs[m_id]`
    installNotifier  `execute` after a failed send, `operator[]` once more
    take             `handleResult`: find, copy the callback, erase
    clear            `clear`
    erase            `~SyncRequest`

The result callback is a type parameter: the accounting of requests names
them by number, the process of peers stores what the lambdas capture.
-/
import JetPeer.Defines

namespace JetPeer

/-! ### Documents -/

/-- The constructor of `AsyncRequest`: the request document without an id. -/
def requestDoc (name : String) (params : Json) : Json :=
  ((Json.null.set Jsonrpc.jsonrpc (.string "2.0")).set Jsonrpc.method (.string name)).set
    Jsonrpc.params params

/-- `m_requestDoc[jsonrpc::ID] = m_id`. -/
def withId (doc : Json) (id : UInt32) : Json := doc.set Jsonrpc.id (.uint id.toNat)

/-- A synthesized error response: the id, then the error. -/
def errorResponse (id : UInt32) (code : Int) (message : String) : Json :=
  withError (withId .null id) code message

/-- What `clear` hands to the callback of an open request. -/
def cancelResponse (id : UInt32) : Json :=
  errorResponse id (-1) "jet request has been canceled without response!"

/-- The id of a response as `handleResult` reads it. -/
def responseId (data : Json) : Except LogicError UInt32 :=
  (data.at Jsonrpc.id).bind Json.asUInt

/-- `result.isMember(jsonrpc::ERR)`. -/
def isError (data : Json) : Bool := data.isMember Jsonrpc.err

theorem errorResponse_eq_object (id : UInt32) (code : Int) (message : String) :
    ∃ ms, errorResponse id code message = .object ms := by
  unfold errorResponse withError Json.modify
  exact Json.set_eq_object _ _ _

@[simp] theorem responseId_errorResponse (id : UInt32) (code : Int) (message : String) :
    responseId (errorResponse id code message) = .ok id := by
  have hid : (errorResponse id code message).member Jsonrpc.id = .uint id.toNat := by
    simp only [errorResponse, withError, Json.modify, withId]
    rw [Json.member_set_of_ne _ (by decide), Json.member_set_of_ne _ (by decide),
      Json.member_set_self]
  obtain ⟨ms, hms⟩ := errorResponse_eq_object id code message
  show ((errorResponse id code message).at Jsonrpc.id).bind Json.asUInt = _
  have hat : (errorResponse id code message).at Jsonrpc.id = .ok (.uint id.toNat) := by
    rw [← hid, hms]; rfl
  rw [hat]
  exact Json.asUInt_uint_toNat id

@[simp] theorem isError_errorResponse (id : UInt32) (code : Int) (message : String) :
    isError (errorResponse id code message) = true := by
  simp [isError, errorResponse, withError, Json.modify]

@[simp] theorem responseId_cancelResponse (id : UInt32) :
    responseId (cancelResponse id) = .ok id := responseId_errorResponse _ _ _

@[simp] theorem isError_cancelResponse (id : UInt32) : isError (cancelResponse id) = true :=
  isError_errorResponse _ _ _

/-! ### The static members -/

variable {κ : Type*}

/-- The notifier a failed send leaves behind: its lambda captures the request
object and the exception. -/
structure ErrorNotifier where
  request : ℕ
  error : JsonrpcException
  deriving DecidableEq

/-- `AsyncRequest::Request`. -/
structure Request (κ : Type*) where
  responseCallback : Option κ := none
  errorNotifier : Option ErrorNotifier := none

/-- `m_sid` and `m_openRequestCbs`. -/
structure RequestTable (κ : Type*) where
  sid : UInt32 := 0
  openRequestCbs : AList fun _ : UInt32 => Request κ := ∅

namespace RequestTable

/-- `m_openRequestCbs[id]`: a new element is value-initialised. -/
def entry (t : RequestTable κ) (id : UInt32) : Request κ :=
  (t.openRequestCbs.lookup id).getD {}

/-- The result callback kept for `id`. -/
def callback (t : RequestTable κ) (id : UInt32) : Option κ :=
  (t.openRequestCbs.lookup id).bind Request.responseCallback

/-- The notifier kept for `id`. -/
def notifier (t : RequestTable κ) (id : UInt32) : Option ErrorNotifier :=
  (t.openRequestCbs.lookup id).bind Request.errorNotifier

/-- `m_id = ++m_sid; m_openRequestCbs[m_id].responseCallback = resultCb`. -/
def enter (t : RequestTable κ) (resultCb : κ) : RequestTable κ where
  sid := t.sid + 1
  openRequestCbs := t.openRequestCbs.insert (t.sid + 1)
    { t.entry (t.sid + 1) with responseCallback := some resultCb }

/-- `m_openRequestCbs[m_id].errorNotifier = …`, outside the lock. -/
def installNotifier (t : RequestTable κ) (id : UInt32) (n : ErrorNotifier) :
    RequestTable κ :=
  { t with openRequestCbs :=
      t.openRequestCbs.insert id { t.entry id with errorNotifier := some n } }

/-- `m_openRequestCbs.erase(id)`. -/
def erase (t : RequestTable κ) (id : UInt32) : RequestTable κ :=
  { t with openRequestCbs := t.openRequestCbs.erase id }

/-- The critical section of `handleResult`: the entry found, and the table
without it. -/
def take (t : RequestTable κ) (id : UInt32) : Option (Request κ × RequestTable κ) :=
  (t.openRequestCbs.lookup id).map fun r => (r, t.erase id)

/-- The callbacks `clear` invokes, with what it hands to them. -/
def cancelled (t : RequestTable κ) : List (κ × Json) :=
  t.openRequestCbs.entries.filterMap fun e =>
    e.2.responseCallback.map fun cb => (cb, cancelResponse e.1)

/-- What `clear` leaves. -/
def clear (t : RequestTable κ) : RequestTable κ := { t with openRequestCbs := ∅ }

/-! ### The callback kept for an id -/

variable {t : RequestTable κ} {id i : UInt32} {cb : κ}

@[simp] theorem callback_enter_self : (t.enter cb).callback (t.sid + 1) = some cb := by
  simp [callback, enter]

theorem callback_enter_of_ne (h : i ≠ t.sid + 1) :
    (t.enter cb).callback i = t.callback i := by
  simp [callback, enter, AList.lookup_insert_ne h]

@[simp] theorem callback_installNotifier (n : ErrorNotifier) :
    (t.installNotifier id n).callback i = t.callback i := by
  by_cases h : i = id
  · subst h
    rcases hl : t.openRequestCbs.lookup i with - | r <;>
      simp [callback, installNotifier, entry, hl]
  · simp [callback, installNotifier, AList.lookup_insert_ne h]

@[simp] theorem callback_erase_self : (t.erase id).callback id = none := by
  simp [callback, erase]

theorem callback_erase_of_ne (h : i ≠ id) : (t.erase id).callback i = t.callback i := by
  simp [callback, erase, AList.lookup_erase_ne h]

@[simp] theorem callback_clear : t.clear.callback id = none := by
  simp [callback, clear]

/-! ### The notifier kept for an id -/

/-- A new entry has no notifier. -/
theorem notifier_enter_self (h : t.openRequestCbs.lookup (t.sid + 1) = none) :
    (t.enter cb).notifier (t.sid + 1) = none := by
  simp [notifier, enter, entry, h]

theorem notifier_enter_of_ne (h : i ≠ t.sid + 1) :
    (t.enter cb).notifier i = t.notifier i := by
  simp [notifier, enter, AList.lookup_insert_ne h]

@[simp] theorem notifier_installNotifier_self (n : ErrorNotifier) :
    (t.installNotifier id n).notifier id = some n := by
  simp [notifier, installNotifier]

theorem notifier_installNotifier_of_ne (n : ErrorNotifier) (h : i ≠ id) :
    (t.installNotifier id n).notifier i = t.notifier i := by
  simp [notifier, installNotifier, AList.lookup_insert_ne h]

@[simp] theorem notifier_erase_self : (t.erase id).notifier id = none := by
  simp [notifier, erase]

theorem notifier_erase_of_ne (h : i ≠ id) : (t.erase id).notifier i = t.notifier i := by
  simp [notifier, erase, AList.lookup_erase_ne h]

@[simp] theorem notifier_clear : t.clear.notifier id = none := by
  simp [notifier, clear]

/-- `take` in one line each for what it finds and what it leaves. -/
theorem take_eq_some {r : Request κ} {t' : RequestTable κ} :
    t.take id = some (r, t') ↔ t.openRequestCbs.lookup id = some r ∧ t' = t.erase id := by
  simp only [take, Option.map_eq_some_iff, Prod.mk.injEq]
  constructor
  · rintro ⟨r', hr, rfl, rfl⟩
    exact ⟨hr, rfl⟩
  · rintro ⟨hr, rfl⟩
    exact ⟨r, hr, rfl, rfl⟩

theorem callback_of_lookup {r : Request κ} (h : t.openRequestCbs.lookup id = some r) :
    t.callback id = r.responseCallback := by
  simp [callback, h]

/-- Everything `clear` hands out was kept in the table, under the id it is
handed out with. -/
theorem mem_cancelled {d : Json} :
    (cb, d) ∈ t.cancelled ↔ ∃ id, t.callback id = some cb ∧ d = cancelResponse id := by
  simp only [cancelled, List.mem_filterMap, Option.map_eq_some_iff, Prod.mk.injEq]
  constructor
  · rintro ⟨⟨id, r⟩, he, cb', hcb, rfl, rfl⟩
    have hl : t.openRequestCbs.lookup id = some r :=
      AList.mem_lookup_iff.mpr he
    exact ⟨id, (callback_of_lookup hl).trans hcb, rfl⟩
  · rintro ⟨id, hcb, rfl⟩
    rcases hl : t.openRequestCbs.lookup id with - | r
    · simp [callback, hl] at hcb
    · refine ⟨⟨id, r⟩, AList.mem_lookup_iff.mp hl, cb, ?_, rfl, rfl⟩
      rw [← callback_of_lookup hl]
      exact hcb

/-- Over a list with distinct keys, a callback that only stands under `id`
stands there once or nowhere. -/
theorem count_callbacks [DecidableEq κ] :
    ∀ {l : List (Sigma fun _ : UInt32 => Request κ)}, l.NodupKeys →
      (∀ e ∈ l, e.2.responseCallback = some cb → e.1 = id) →
      (l.filterMap fun e => e.2.responseCallback).count cb =
        if (l.dlookup id).bind Request.responseCallback = some cb then 1 else 0
  | [], _, _ => by simp
  | ⟨k, v⟩ :: l, hnd, hkey => by
      obtain ⟨hk, hl⟩ := List.nodupKeys_cons.mp hnd
      have ih := count_callbacks hl fun e he => hkey e (List.mem_cons_of_mem _ he)
      have hnone : id = k → l.dlookup id = none := by
        rintro rfl
        exact List.dlookup_eq_none.mpr hk
      by_cases hid : id = k
      · -- nothing behind the front has the key `id`
        rw [hnone hid] at ih
        subst hid
        rw [List.dlookup_cons_eq]
        rcases hv : v.responseCallback with - | c
        · simpa [List.filterMap_cons, hv] using ih
        · simpa [List.filterMap_cons, hv, List.count_cons] using ih
      · rw [List.dlookup_cons_ne _ _ hid, ← ih]
        have hne : v.responseCallback ≠ some cb :=
          fun hv => hid (hkey _ List.mem_cons_self hv).symm
        rcases hv : v.responseCallback with - | c
        · simp [hv]
        · have hc : c ≠ cb := fun hc => hne (by rw [hv, hc])
          simp [hv, List.count_cons_of_ne hc]

/-- A callback kept under one id only is handed out as often as it is kept. -/
theorem count_cancelled [DecidableEq κ] (h : ∀ i, t.callback i = some cb → i = id) :
    (t.cancelled.map Prod.fst).count cb = if t.callback id = some cb then 1 else 0 := by
  have hmap : t.cancelled.map Prod.fst
      = t.openRequestCbs.entries.filterMap fun e => e.2.responseCallback := by
    simp only [cancelled, List.map_filterMap, Option.map_map]
    congr 1
    funext e
    cases e.2.responseCallback <;> rfl
  rw [hmap]
  refine count_callbacks t.openRequestCbs.nodupKeys fun e he hcb => h e.1 ?_
  exact (callback_of_lookup (AList.mem_lookup_iff.mpr he)).trans hcb

end RequestTable

end JetPeer
