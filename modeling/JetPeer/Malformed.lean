/-
JetPeer/Malformed.lean

What a malformed message does to the messages around it.

A message is `WellFormed` if the peer has somebody it is for; it is `Inert`
if it is for nobody and says so in a form every accessor can read.  These two
are harmless, each in its way: the first is dispatched exactly once
(`handleMessage_wellFormed`), the second changes nothing
(`handleMessage_inert`).

All others are not (`handleMessage_unharmed_iff`): an accessor throws, and
the exception takes the rest of the batch and the buffers of `receive` with
it; or an id that is no integer is read as one, and completes a request
nobody answered.

`receiveAll_benign` is the law for whole streams: as long as every message is
benign when its turn comes, it is as if only the well formed ones had come.
-/
import JetPeer.Delivery
import JetPeer.Dispatch

namespace JetPeer

open Framing.Header

variable {env : Env} {data : Json} {s : Peer} {r : Registry}

/-! ### Well formed and inert messages -/

/-- The id is written as an integer. -/
def IntegralId (v : Json) (id : UInt32) : Prop := v = .int id.toNat ∨ v = .uint id.toNat

/-- A response to an open request, a notification of a registered fetch, or a
request to a registered state or method. -/
def WellFormed (r : Registry) (data : Json) : Prop :=
  (∃ ms, data = .object ms) ∧
    match data.member Jsonrpc.method with
    | .null => ∃ id, IntegralId (data.member Jsonrpc.id) id ∧ id ∈ r.requests.openRequestCbs
    | .int n => minInt ≤ n ∧ n ≤ maxInt ∧ n ∈ r.tables.fetchers
    | .string path =>
        (path ∈ r.tables.stateCallbacks ∧ HasValue data) ∨
          (path ∉ r.tables.stateCallbacks ∧ path ∈ r.tables.methodCallbacks)
    | _ => False

/-- A message for nobody: null, or an object whose id is readable and of no
open request, whose method is an `int` and of no fetch, names no entry, asks
a state for nothing, or is of another type. -/
def Inert (r : Registry) (data : Json) : Prop :=
  (data = .null ∨ ∃ ms, data = .object ms) ∧
    match data.member Jsonrpc.method with
    | .null => ∃ id, responseId data = .ok id ∧ id ∉ r.requests.openRequestCbs
    | .int n => minInt ≤ n ∧ n ≤ maxInt ∧ n ∉ r.tables.fetchers
    | .string path =>
        (path ∈ r.tables.stateCallbacks ∧ HasNoValue data) ∨
          (path ∉ r.tables.stateCallbacks ∧ path ∉ r.tables.methodCallbacks)
    | _ => True

/-- Well formed or inert. -/
def Benign (r : Registry) (data : Json) : Prop := WellFormed r data ∨ Inert r data

/-- A target somebody is called or answered for. -/
def Reaches (r : Registry) : Target → Prop
  | .response id => id ∈ r.requests.openRequestCbs
  | .nothing => False
  | _ => True

/-! ### Targets -/

theorem asInt_int {n : Int} :
    (Json.int n).asInt = if minInt ≤ n ∧ n ≤ maxInt then .ok n else .error .outOfRange := rfl

theorem responseId_of_integral {id : UInt32} (h : ∃ ms, data = .object ms)
    (hid : IntegralId (data.member Jsonrpc.id) id) : responseId data = .ok id := by
  have hread : responseId data = (data.member Jsonrpc.id).asUInt := by
    rw [responseId, at_eq_ok (.inr h)]
    rfl
  rw [hread]
  rcases hid with hid | hid
  · have hlt := id.toNat_lt
    have hrange : (0 : Int) ≤ (id.toNat : Int) ∧ (id.toNat : Int) ≤ maxUInt := by
      unfold maxUInt
      omega
    rw [hid]
    simp [Json.asUInt, Json.asIntIn, hrange, Except.map]
  · rw [hid]
    exact Json.asUInt_uint_toNat id

/-- The fates of a notification. -/
theorem fetchTarget_cases {t : Tables} {n : Int} (h : data = .null ∨ ∃ ms, data = .object ms) :
    (minInt ≤ n ∧ n ≤ maxInt ∧ n ∈ t.fetchers ∧ ∃ fetcher,
        fetchTarget t data (.int n) = .ok (.fetch n fetcher (data.member Jsonrpc.params))) ∨
      (minInt ≤ n ∧ n ≤ maxInt ∧ n ∉ t.fetchers ∧
        fetchTarget t data (.int n) = .ok .nothing) ∨
      (¬ (minInt ≤ n ∧ n ≤ maxInt) ∧ ∃ e, fetchTarget t data (.int n) = .error e) := by
  simp only [fetchTarget, asInt_int, at_eq_ok h]
  by_cases hn : minInt ≤ n ∧ n ≤ maxInt
  · rw [if_pos hn]
    rcases hl : t.fetchers.lookup n with - | fetcher
    · refine .inr (.inl ⟨hn.1, hn.2, AList.lookup_eq_none.mp hl, ?_⟩)
      simp only [Except.bind, hl]
    · refine .inl ⟨hn.1, hn.2, Maps.mem_of_lookup hl, fetcher, ?_⟩
      simp only [Except.bind, hl]
      rfl
  · rw [if_neg hn]
    exact .inr (.inr ⟨hn, _, rfl⟩)

/-- The fates of a request. -/
theorem requestTarget_cases {t : Tables} {path : String}
    (h : data = .null ∨ ∃ ms, data = .object ms) :
    (path ∈ t.stateCallbacks ∧ ((HasValue data ∧ ∃ callback,
          requestTarget t data path = .ok (.state path callback
            ((data.member Jsonrpc.params).member Word.value))) ∨
        (HasNoValue data ∧ requestTarget t data path = .ok .nothing) ∨
        (¬ HasValue data ∧ ¬ HasNoValue data ∧ ∃ e, requestTarget t data path = .error e))) ∨
      (path ∉ t.stateCallbacks ∧ path ∈ t.methodCallbacks ∧ ∃ callback,
        requestTarget t data path
          = .ok (.method path callback (data.member Jsonrpc.params))) ∨
      (path ∉ t.stateCallbacks ∧ path ∉ t.methodCallbacks ∧
        requestTarget t data path = .ok .nothing) := by
  rcases hs : t.stateCallbacks.lookup path with - | callback
  · have hns : path ∉ t.stateCallbacks := AList.lookup_eq_none.mp hs
    rcases hm : t.methodCallbacks.lookup path with - | callback
    · refine .inr (.inr ⟨hns, AList.lookup_eq_none.mp hm, ?_⟩)
      simp only [requestTarget, hs, hm]
    · exact .inr (.inl ⟨hns, Maps.mem_of_lookup hm, callback,
        requestTarget_method h hs hm⟩)
  · refine .inl ⟨Maps.mem_of_lookup hs, ?_⟩
    rcases requestTarget_state_cases h hs with ⟨hv, ht⟩ | hno | hthrow
    · exact .inl ⟨hv, callback, ht⟩
    · exact .inr (.inl hno)
    · exact .inr (.inr hthrow)

/-- A well formed message is read without an exception and reaches somebody. -/
theorem target_wellFormed (h : WellFormed r data) :
    ∃ tgt, target r.tables data = .ok tgt ∧ Reaches r tgt := by
  obtain ⟨hobject, hmatch⟩ := h
  rw [target_eq (.inr hobject)]
  rcases hm : data.member Jsonrpc.method with - | b | n | n | q | path | xs | ms <;>
    simp only [hm] at hmatch
  · -- a response
    obtain ⟨id, hid, hopen⟩ := hmatch
    refine ⟨.response id, ?_, hopen⟩
    rw [nodeTarget, responseId_of_integral hobject hid]
    rfl
  · -- a notification
    obtain ⟨h₁, h₂, hmem⟩ := hmatch
    rcases fetchTarget_cases (t := r.tables) (n := n) (.inr hobject) with
      ⟨-, -, -, fetcher, ht⟩ | ⟨-, -, hno, -⟩ | ⟨hno, -⟩
    · exact ⟨_, ht, trivial⟩
    · exact absurd hmem hno
    · exact absurd ⟨h₁, h₂⟩ hno
  · -- a request
    rcases requestTarget_cases (t := r.tables) (.inr hobject) with
      ⟨hmem, ⟨-, callback, ht⟩ | ⟨hno, -⟩ | ⟨hno, -⟩⟩ | ⟨-, -, callback, ht⟩ | ⟨hns, hnm, -⟩
    · exact ⟨_, ht, trivial⟩
    · rcases hmatch with ⟨-, hv⟩ | ⟨hns, -⟩
      · exact absurd hno hv.not_hasNoValue
      · exact absurd hmem hns
    · rcases hmatch with ⟨-, hv⟩ | ⟨hns, -⟩
      · exact absurd hv hno
      · exact absurd hmem hns
    · exact ⟨_, ht, trivial⟩
    · rcases hmatch with ⟨hmem, -⟩ | ⟨-, hmem⟩
      · exact absurd hmem hns
      · exact absurd hmem hnm

/-- A result that is there, with what is said of it. -/
theorem exists_ok_and {ε α : Type*} {P : α → Prop} {a : α} :
    (∃ x, (Except.ok a : Except ε α) = .ok x ∧ P x) ↔ P a := by
  simp only [Except.ok.injEq, exists_eq_left']

theorem not_exists_error_and {ε α : Type*} {P : α → Prop} {e : ε} :
    ¬ ∃ x, (Except.error e : Except ε α) = .ok x ∧ P x := by
  rintro ⟨x, hx, -⟩
  cases hx

/-- A notification of no fetch. -/
theorem fetchTarget_inert {n : Int} (h : data = .null ∨ ∃ ms, data = .object ms) :
    (minInt ≤ n ∧ n ≤ maxInt ∧ n ∉ r.tables.fetchers) ↔
      ∃ tgt, fetchTarget r.tables data (.int n) = .ok tgt ∧ ¬ Reaches r tgt := by
  rcases fetchTarget_cases (t := r.tables) (n := n) h with
    ⟨-, -, hmem, fetcher, ht⟩ | ⟨h₁, h₂, hno, ht⟩ | ⟨hno, e, ht⟩ <;> rw [ht]
  · rw [exists_ok_and]
    exact ⟨fun h => absurd hmem h.2.2, fun h => absurd trivial h⟩
  · rw [exists_ok_and]
    exact ⟨fun _ => id, fun _ => ⟨h₁, h₂, hno⟩⟩
  · refine iff_of_false (fun h => ?_) not_exists_error_and
    exact hno ⟨h.1, h.2.1⟩

/-- A request that names no entry, or asks a state for nothing. -/
theorem requestTarget_inert {path : String} (h : data = .null ∨ ∃ ms, data = .object ms) :
    ((path ∈ r.tables.stateCallbacks ∧ HasNoValue data) ∨
        (path ∉ r.tables.stateCallbacks ∧ path ∉ r.tables.methodCallbacks)) ↔
      ∃ tgt, requestTarget r.tables data path = .ok tgt ∧ ¬ Reaches r tgt := by
  rcases @requestTarget_cases data r.tables path h with
    ⟨hmem, ⟨hv, callback, ht⟩ | ⟨hno, ht⟩ | ⟨-, hno, e, ht⟩⟩ |
      ⟨hns, hmem, callback, ht⟩ | ⟨hns, hnm, ht⟩ <;> rw [ht]
  · -- a state with a value
    rw [exists_ok_and]
    refine iff_of_false ?_ fun h => h trivial
    rintro (⟨-, hno⟩ | ⟨hns, -⟩)
    · exact hv.not_hasNoValue hno
    · exact hns hmem
  · rw [exists_ok_and]
    exact iff_of_true (.inl ⟨hmem, hno⟩) id
  · refine iff_of_false ?_ not_exists_error_and
    rintro (⟨-, hno'⟩ | ⟨hns, -⟩)
    · exact hno hno'
    · exact hns hmem
  · -- a method
    rw [exists_ok_and]
    refine iff_of_false ?_ fun h => h trivial
    rintro (⟨hmem', -⟩ | ⟨-, hnm⟩)
    · exact hns hmem'
    · exact hnm hmem
  · rw [exists_ok_and]
    exact iff_of_true (.inr ⟨hns, hnm⟩) id

/-- The inert messages are those that are read without an exception and reach
nobody. -/
theorem target_inert : Inert r data ↔
    ∃ tgt, target r.tables data = .ok tgt ∧ ¬ Reaches r tgt := by
  by_cases hshape : data = .null ∨ ∃ ms, data = .object ms
  · rw [target_eq hshape, Inert, and_iff_right hshape]
    rcases hm : data.member Jsonrpc.method with - | b | n | n | q | path | xs | ms <;>
      simp only [nodeTarget]
    · -- a response
      rcases responseId data with e | id
      · exact iff_of_false not_exists_error_and not_exists_error_and
      · rw [exists_ok_and, Except.map, exists_ok_and]
        rfl
    · exact iff_of_true trivial ⟨_, rfl, id⟩
    · exact fetchTarget_inert hshape
    · exact iff_of_true trivial ⟨_, rfl, id⟩
    · exact iff_of_true trivial ⟨_, rfl, id⟩
    · exact requestTarget_inert hshape
    · exact iff_of_true trivial ⟨_, rfl, id⟩
    · exact iff_of_true trivial ⟨_, rfl, id⟩
  · -- a value without members
    obtain ⟨e, he⟩ := at_eq_error hshape Jsonrpc.method
    refine iff_of_false (fun h => hshape h.1) ?_
    rw [target, he]
    exact not_exists_error_and

/-! ### One message -/

/-- Whoever is reached is reached once. -/
theorem dispatch_reaches {tgt : Target} (h : Reaches s.registry tgt) :
    ∃ d, (dispatch env data s tgt).1.dispatched = s.dispatched ++ [d] := by
  cases tgt with
  | response id =>
      obtain ⟨e, he⟩ := Maps.lookup_of_mem h
      have htake := RequestTable.take_eq_some.mpr ⟨he, rfl⟩
      refine ⟨.response e.responseCallback data, ?_⟩
      simp only [dispatch, handleResponse, htake]
      rcases e.responseCallback with - | cb <;> rfl
  | fetch fetchId fetcher params =>
      refine ⟨.notification fetchId fetcher.callback params 0, ?_⟩
      simp only [dispatch, handleFetch]
      rcases fetcher.callback with - | cb <;> rfl
  | state path callback value =>
      rcases callback with - | cb
      · exact ⟨_, respond_dispatched _ _ _ _⟩
      · rcases ho : env.stateCallback cb value path s.registry with ⟨e | res, a⟩
        · refine ⟨.state path (some cb) value false, ?_⟩
          simp only [dispatch, handleState, ho]
          exact respond_dispatched _ _ _ _
        · refine ⟨.state path (some cb) value true, ?_⟩
          simp only [dispatch, handleState, ho]
          split_ifs
          · exact respond_dispatched _ _ _ _
          · rcases hsend : sendMessage env (changeNotification path res.value)
              ((s.after a).log (.state path (some cb) value true)) with e | t
            · exact respond_dispatched _ _ _ _
            · obtain rfl := eq_of_sendMessage_ok hsend
              exact respond_dispatched _ _ _ _
  | method path callback params =>
      rcases callback with - | cb <;> exact ⟨_, respond_dispatched _ _ _ _⟩
  | nothing => exact absurd h id

theorem dispatch_not_reaches {tgt : Target} (h : ¬ Reaches s.registry tgt) :
    dispatch env data s tgt = (s, false) := by
  cases tgt with
  | response id =>
      have hl : s.registry.requests.openRequestCbs.lookup id = none :=
        AList.lookup_eq_none.mpr h
      simp [dispatch, handleResponse, RequestTable.take, hl]
  | nothing => rfl
  | _ => exact absurd trivial h

/-- **A well formed message** is dispatched exactly once. -/
theorem handleMessage_wellFormed (h : WellFormed s.registry data) :
    (handleMessage env data s).2.threw = false ∧
      ∃ d, (handleMessage env data s).1.dispatched = s.dispatched ++ [d] := by
  obtain ⟨tgt, ht, hreaches⟩ := target_wellFormed h
  rw [handleMessage_of_ok ht]
  exact ⟨rfl, dispatch_reaches hreaches⟩

/-- **An inert message** changes nothing. -/
theorem handleMessage_inert (h : Inert s.registry data) :
    handleMessage env data s = (s, ⟨false, false⟩) := by
  obtain ⟨tgt, ht, hno⟩ := target_inert.mp h
  rw [handleMessage_of_ok ht, dispatch_not_reaches hno]

/-- Exactly the benign messages let no exception out and, unless they are
well formed, change nothing. -/
theorem handleMessage_unharmed_iff :
    ((handleMessage env data s).2.threw = false ∧
        (¬ WellFormed s.registry data → (handleMessage env data s).1 = s)) ↔
      Benign s.registry data := by
  constructor
  · rintro ⟨hthrew, hsame⟩
    rcases ht : target s.registry.tables data with e | tgt
    · rw [handleMessage_of_error ht] at hthrew
      cases hthrew
    · by_cases hreaches : Reaches s.registry tgt
      · left
        by_contra hno
        -- somebody was reached, so the log has grown
        obtain ⟨d, hd⟩ := @dispatch_reaches env data s tgt hreaches
        have hs := hsame hno
        rw [handleMessage_of_ok ht] at hs
        rw [hs] at hd
        exact absurd (congrArg List.length hd) (by simp)
      · exact .inr (target_inert.mpr ⟨tgt, ht, hreaches⟩)
  · rintro (h | h)
    · exact ⟨(handleMessage_wellFormed h).1, fun hno => absurd h hno⟩
    · rw [handleMessage_inert h]
      exact ⟨rfl, fun _ => rfl⟩

theorem Benign.not_threw (h : Benign s.registry data) (env : Env) :
    (handleMessage env data s).2.threw = false := (handleMessage_unharmed_iff.mpr h).1

/-! ### Streams -/

open Classical in
/-- Only the well formed messages. -/
noncomputable def handleWellFormed (env : Env) (s : Peer) (data : Json) : Peer :=
  if WellFormed s.registry data then (handleMessage env data s).1 else s

/-- Every message is benign when its turn comes. -/
def BenignRun (env : Env) : Peer → List Json → Prop
  | _, [] => True
  | s, data :: rest => Benign s.registry data ∧ BenignRun env (handleMessage env data s).1 rest

/-- The messages of a payload. -/
def payloadMessages (parse : List UInt8 → Parsed) (payload : List UInt8) : List Json :=
  match parse payload with
  | .value data => messages data
  | _ => []

theorem BenignRun.append {xs ys : List Json} (h : BenignRun env s (xs ++ ys)) :
    BenignRun env s xs ∧ BenignRun env (handleBatch env xs s).1 ys := by
  induction xs generalizing s with
  | nil => exact ⟨trivial, h⟩
  | cons data xs ih =>
      obtain ⟨hb, hrest⟩ := h
      obtain ⟨hx, hy⟩ := ih hrest
      refine ⟨⟨hb, hx⟩, ?_⟩
      have hthrew := hb.not_threw env
      simp only [handleBatch, hthrew, Bool.false_eq_true, if_false]
      exact hy

theorem handleWellFormed_of_benign (h : Benign s.registry data) :
    handleWellFormed env s data = (handleMessage env data s).1 := by
  by_cases hw : WellFormed s.registry data
  · exact if_pos hw
  · rw [handleWellFormed, if_neg hw]
    exact ((handleMessage_unharmed_iff.mpr h).2 hw).symm

/-- A batch of benign messages. -/
theorem handleBatch_benign {xs : List Json} (h : BenignRun env s xs) :
    (handleBatch env xs s).2.threw = false ∧
      (handleBatch env xs s).1 = xs.foldl (handleWellFormed env) s := by
  induction xs generalizing s with
  | nil => exact ⟨rfl, rfl⟩
  | cons data xs ih =>
      obtain ⟨hb, hrest⟩ := h
      have hthrew := hb.not_threw env
      obtain ⟨hx, hy⟩ := ih hrest
      simp only [handleBatch, hthrew, Bool.false_eq_true, if_false, List.foldl_cons,
        handleWellFormed_of_benign hb]
      exact ⟨hx, hy⟩

/-- A stream of payloads whose messages are benign. -/
theorem deliver_benign {parse : List UInt8 → Parsed} {stop : Peer → Peer × Bool}
    {ps : List (List UInt8)} (hparse : ∀ p ∈ ps, parse p ≠ .threw)
    (h : BenignRun env s (ps.flatMap (payloadMessages parse))) :
    deliver (peerSurroundings env parse stop) s ps
      = ((ps.flatMap (payloadMessages parse)).foldl (handleWellFormed env) s, false) := by
  induction ps generalizing s with
  | nil => rfl
  | cons p ps ih =>
      rw [List.flatMap_cons] at h
      obtain ⟨hp, hrest⟩ := h.append
      obtain ⟨hthrew, hfold⟩ := handleBatch_benign hp
      have htelegram : (peerSurroundings env parse stop).telegram s p
          = handleBatch env (payloadMessages parse p) s := by
        simp only [peerSurroundings, payloadMessages]
        rcases hpp : parse p with data | - | -
        · exact receiveCallback_eq
        · rfl
        · exact absurd hpp (hparse p List.mem_cons_self)
      rw [deliver, htelegram, hthrew, if_neg Bool.false_ne_true, List.flatMap_cons,
        List.foldl_append, ← hfold]
      exact ih (fun q hq => hparse q (List.mem_cons_of_mem _ hq)) hrest

/-! ### Main result -/

/-- **A malformed telegram affects at most itself**, as long as it is benign:
over any stream of telegrams, cut in any way, no exception leaves `receive`,
the buffers are empty in the end, and the peer is as if only the well formed
messages had come, each of which is dispatched once. -/
theorem receiveAll_benign {parse : List UInt8 → Parsed} {stop : Peer → Peer × Bool}
    {c : Conn Peer} {calls : List (List SocketEvent)} {ps : List (List UInt8)}
    (hc : Reading c) (hboundary : lengthHeader.rest c.received = [])
    (hps : ∀ p ∈ ps, p.length ≤ maxMessageSize)
    (honly : ∀ es ∈ calls, BytesOnly es)
    (hbytes : calls.flatMap storedBytes = lengthHeader.stream ps)
    (hparse : ∀ p ∈ ps, parse p ≠ .threw)
    (hbenign : BenignRun env c.peer (ps.flatMap (payloadMessages parse))) :
    let u := receiveAll (peerSurroundings env parse stop) c calls
    u.2 = false ∧
      u.1.lengthBufferLevel = 0 ∧ u.1.dataBuffer = [] ∧ u.1.dataBufferLevel = 0 ∧
      u.1.peer = (ps.flatMap (payloadMessages parse)).foldl (handleWellFormed env) c.peer ∧
      ∀ s data, WellFormed s.registry data →
        ∃ d, (handleWellFormed env s data).dispatched = s.dispatched ++ [d] := by
  intro u
  have hwhole : lengthHeader.rest (c.received ++ calls.flatMap storedBytes) = [] := by
    have h := (lengthHeader.split_stream hps []).2
    rw [List.append_nil, lengthHeader.rest_nil] at h
    rw [(lengthHeader.split_append _ _).2, hboundary, List.nil_append, hbytes, h]
  obtain ⟨hpeer, hend⟩ := receiveAll_deliver (peerSurroundings env parse stop) calls hc honly
    ⟨[], by rw [List.append_nil, hwhole]⟩
  have hsplit := (lengthHeader.split_stream hps []).1
  rw [List.append_nil, lengthHeader.split_nil, List.append_nil] at hsplit
  rw [hboundary, List.nil_append, hbytes, hsplit, deliver_benign hparse hbenign] at hpeer
  obtain ⟨hfold, hthrew⟩ := Prod.mk.inj hpeer
  obtain ⟨hreading, hrest⟩ := hend hthrew
  obtain ⟨hlevel, hdata, hdataLevel⟩ := hreading.buffers_empty (hrest.trans hwhole)
  refine ⟨hthrew, hlevel, hdata, hdataLevel, hfold, fun s data hw => ?_⟩
  rw [handleWellFormed, if_pos hw]
  exact (handleMessage_wellFormed hw).2

/-! ### Two batches -/

/-- Bytes as one chunk. -/
def chunk : List UInt8 → List SocketEvent
  | [] => []
  | b :: bs => [.bytes b bs]

theorem chunk_bytesOnly (bs : List UInt8) : BytesOnly (chunk bs) := by
  cases bs with
  | nil => exact fun e he => by cases he
  | cons b bs =>
      intro e he
      rw [List.mem_singleton.mp he]
      rfl

theorem storedBytes_chunk (bs : List UInt8) : storedBytes (chunk bs) = bs := by
  cases bs with
  | nil => rfl
  | cons b bs => exact List.append_nil _

/-- The bytes cut in two, somewhere in the first length. -/
def cutCalls (bs : List UInt8) : List (List SocketEvent) := [chunk (bs.take 2), chunk (bs.drop 2)]

theorem cutCalls_bytesOnly (bs : List UInt8) : ∀ es ∈ cutCalls bs, BytesOnly es := by
  intro es hes
  rcases List.mem_cons.mp hes with rfl | hes
  · exact chunk_bytesOnly _
  · rw [List.mem_singleton.mp hes]
    exact chunk_bytesOnly _

theorem cutCalls_bytes (bs : List UInt8) : (cutCalls bs).flatMap storedBytes = bs := by
  show storedBytes (chunk _) ++ (storedBytes (chunk _) ++ []) = bs
  rw [storedBytes_chunk, storedBytes_chunk, List.append_nil, List.take_append_drop]

/-- A parser that knows the texts of these values. -/
def parseOf (vs : List Json) (bs : List UInt8) : Parsed :=
  match vs.find? fun v => v.text = bs with
  | some v => .value v
  | none => .failed

theorem parseOf_ne_threw (vs : List Json) (bs : List UInt8) : parseOf vs bs ≠ .threw := by
  unfold parseOf
  split <;> simp

theorem freshConn_reading (peer : Peer) : Reading (freshConn peer) :=
  .inl (Logged.start ⟨rfl, by simp, by simp⟩)

/-- A response nobody waits for, then a call of the method `m`. -/
def callBatch : Json :=
  .array [.object [("id", .uint 7)], .object [("id", .uint 1), ("method", .string "m")]]

/-- A response with a string for an id, then the same call. -/
def brokenBatch : Json :=
  .array [.object [("id", .string "x")], .object [("id", .uint 1), ("method", .string "m")]]

/-- A peer that serves the method `m`. -/
def methodPeer : Peer where
  registry := { tables := { methodCallbacks := AList.insert "m" (some 0) ∅ } }

theorem callBatch_wellFormed :
    WellFormed methodPeer.registry (.object [("id", .uint 1), ("method", .string "m")]) :=
  ⟨⟨_, rfl⟩, .inr ⟨AList.notMem_empty _, AList.mem_insert _ |>.mpr (.inl rfl)⟩⟩

theorem receiveAll_benign_batch :
    let u := receiveAll (peerSurroundings plainEnv (parseOf [callBatch]) fun s => (s, false))
      (freshConn methodPeer) (cutCalls (lengthHeader.stream [callBatch.text]))
    u.2 = false ∧ u.1.dataBuffer = [] := by
  have hinert : Inert methodPeer.registry (.object [("id", .uint 7)]) :=
    ⟨.inr ⟨_, rfl⟩, 7, rfl, AList.notMem_empty _⟩
  have hbenign : BenignRun plainEnv methodPeer
      ([callBatch.text].flatMap (payloadMessages (parseOf [callBatch]))) := by
    refine ⟨.inr hinert, .inl ?_, trivial⟩
    rw [handleMessage_inert hinert]
    exact callBatch_wellFormed
  have hps : ∀ p ∈ [callBatch.text], p.length ≤ maxMessageSize := by
    intro p hp
    rw [List.mem_singleton.mp hp]
    decide
  obtain ⟨hthrew, -, hdata, -⟩ := @receiveAll_benign plainEnv (parseOf [callBatch])
    (fun s => (s, false)) _ _ _ (freshConn_reading methodPeer) lengthHeader.rest_nil hps
    (cutCalls_bytesOnly _) (cutCalls_bytes _) (fun p _ => parseOf_ne_threw _ p) hbenign
  exact ⟨hthrew, hdata⟩

/-- An exception leaves `receive`, and the call behind it in the batch is not
dispatched. -/
theorem string_id_leaves_receive :
    WellFormed methodPeer.registry (.object [("id", .uint 1), ("method", .string "m")]) ∧
      let u := receiveAll (peerSurroundings plainEnv (parseOf [brokenBatch]) fun s => (s, false))
        (freshConn methodPeer) (cutCalls (lengthHeader.stream [brokenBatch.text]))
      u.2 = true ∧ u.1.peer.dispatched = [] := by
  refine ⟨callBatch_wellFormed, ?_⟩
  have hps : ∀ p ∈ [brokenBatch.text], p.length ≤ maxMessageSize := by
    intro p hp
    rw [List.mem_singleton.mp hp]
    decide
  obtain ⟨hpeer, -⟩ := receiveAll_deliver
    (peerSurroundings plainEnv (parseOf [brokenBatch]) fun s => (s, false))
    (cutCalls (lengthHeader.stream [brokenBatch.text])) (freshConn_reading methodPeer)
    (cutCalls_bytesOnly _) (by rw [cutCalls_bytes]; exact completable_stream hps)
  have hsplit := (lengthHeader.split_stream hps []).1
  rw [List.append_nil, lengthHeader.split_nil, List.append_nil] at hsplit
  rw [cutCalls_bytes] at hpeer
  change _ = deliver _ _ (lengthHeader.split (lengthHeader.rest [] ++ _)) at hpeer
  rw [lengthHeader.rest_nil, List.nil_append, hsplit] at hpeer
  have hdeliver : deliver (peerSurroundings plainEnv (parseOf [brokenBatch]) fun s => (s, false))
      methodPeer [brokenBatch.text] = (methodPeer, true) := rfl
  obtain ⟨hsame, hthrew⟩ := Prod.mk.inj (hpeer.trans hdeliver)
  exact ⟨hthrew, by rw [hsame]; rfl⟩

end JetPeer
