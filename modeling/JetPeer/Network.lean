/-
JetPeer/Network.lean

A state, its owner, the daemon and the caches of any number of clients.

The owner is `tool/jetstate.cpp`: one process with one state, and `setCb`,
which takes over whatever is requested.  A client is a process with the cache
of `tool/cache.cpp`, and it asks for changes with `setStateValueAsync`.  Both
run `handleMessage` on every telegram they get.  Between them is the daemon of
`lib/README.md`: it caches the value, passes a request on to the owner under
an id of its own, passes the response back, and notifies those who fetched.
Every connection is a queue, and the parties take turns in any order.

A client may lose its connection and resume it.  What is on its way then is
lost in both directions, the daemon forgets the fetch, `PeerAsync::stop`
cancels the open requests, and `PeerAsync::start` sends the fetch again.  A
request that has reached the owner is served all the same.

What the owner does with the answer to its add is to print it; it is left out.
So are the `configAsync` of a start, the owner's own connection, and a client
whose request the socket does not take.
-/
import JetPeer.Cache
import JetPeer.Equality
import JetPeer.OwnerRole
import JetPeer.RemoteCalls

namespace JetPeer

open Runs

/-! ### The owner: `tool/jetstate.cpp` -/

/-- `setCb`: the value from then on, and what is returned. -/
def setCb (value requested : Json) : Json × SetStateCbResult :=
  if value = requested then (value, {}) else (requested, { value := requested })

/-- The surroundings of the owner while the state has this value. -/
def ownerEnv (env : Env) (value : Json) : Env :=
  { env with stateCallback := fun _ requested _ r =>
      (.ok (setCb value requested).2, { registry := r }) }

/-- The value after a call. -/
def Dispatched.valueAfter (value : Json) : Dispatched → Json
  | .state _ (some _) requested _ => (setCb value requested).1
  | _ => value

structure Owner where
  value : Json
  registry : Registry

namespace Owner

/-- `addStateAsync`: the callbacks are `setCb` and `resultCb`. -/
def start (path : String) (value : Json) : Owner where
  value := value
  registry :=
    { tables := ({} : Tables).registerState path (some 0)
      requests := ({} : RequestTable Callback).enter 1 }

def handling (env : Env) (o : Owner) (data : Json) : Peer :=
  (handleMessage (ownerEnv env o.value) data { registry := o.registry }).1

/-- The owner after a telegram, and what it has sent. -/
def handle (env : Env) (o : Owner) (data : Json) : Owner × List Json :=
  let p := o.handling env data
  (⟨p.dispatched.foldl Dispatched.valueAfter o.value, p.registry⟩, p.sent)

end Owner

/-- The telegram of the add. -/
def addTelegram (path : String) (value : Json) (timeout : ℚ) : Json :=
  withId (requestDoc Word.add
    (addStateParams path value (Json.null.set Word.timeout (.real timeout)) (some 0))) 1

/-! ### The clients -/

/-- A response, whatever its id. -/
abbrev ResponseDoc := { doc : Json // doc.member Jsonrpc.method = .null }

/-- What the daemon sends to a client. -/
inductive Incoming where
  | notice (n : Notice)
  | response (id : UInt32) (reply : ResponseDoc)

def Incoming.telegram (fetchId : FetchId) : Incoming → Json
  | .notice n => n.message fetchId
  | .response id reply => withId reply.1 id

/-- `fetchCb` is the callback of the fetch. -/
def Cache.called (c : Cache) : Dispatched → Cache
  | .notification _ (some _) params status => c.after params status
  | _ => c

structure Client where
  registry : Registry
  /-- The values asked for; the `k`-th result callback has captured the `k`-th. -/
  asked : List Json := []
  cache : Cache := ∅
  connected : Bool := true
  out : List Json
  inbox : List Incoming := []

namespace Client

/-- The constructor of `cache`: `addFetchAsync`, without a result callback. -/
def start (fetchId : FetchId) (m : Matcher) : Client where
  registry := { tables := ({} : Tables).registerFetch fetchId ⟨some 0, m⟩ }
  out := [requestDoc Word.fetch (addFetchParams m fetchId)]

/-- `setStateValueAsync`. -/
def ask (c : Client) (path : String) (value : Json) : Client :=
  let doc := requestDoc Word.set ((Json.null.set Word.path (.string path)).set Word.value value)
  { c with
    registry := { c.registry with requests := c.registry.requests.enter c.asked.length }
    asked := c.asked ++ [value]
    out := c.out ++ [withId doc (c.registry.requests.sid + 1)] }

/-- `PeerAsync::stop`: the fetch callbacks are called, the open requests are
cancelled, and only the fetches are kept. -/
def lose (c : Client) : Client :=
  { c with
    registry :=
      { tables := (c.registry.tables.clear .states).clear .methods
        requests := c.registry.requests.clear }
    cache := c.cache.after .null (-1)
    connected := false
    out := []
    inbox := [] }

/-- `PeerAsync::start` on a resume: every known fetch is sent again. -/
def resume (c : Client) : Client :=
  { c with
    connected := true
    out := c.registry.tables.fetchers.entries.map fun e =>
      requestDoc Word.fetch (restoreFetchParams e.2.matcher e.1) }

def handling (c : Client) (data : Json) : Peer :=
  (handleMessage plainEnv data { registry := c.registry }).1

/-- The client after a telegram. -/
def handle (c : Client) (data : Json) : Client :=
  let p := c.handling data
  { c with registry := p.registry, cache := p.dispatched.foldl Cache.called c.cache }

def push (c : Client) (ds : List Incoming) : Client := { c with inbox := c.inbox ++ ds }

/-- The value asked for with this id, while the response is expected. -/
def requested (c : Client) (id : UInt32) : Option Json :=
  (c.registry.requests.callback id).bind fun k => c.asked[k]?

end Client

/-! ### The daemon -/

/-- What a client wants. -/
inductive Order where
  | fetch
  | set (id : UInt32) (value : Json)

def readOrder (doc : Json) : Option Order :=
  match doc.member Jsonrpc.method with
  | .string m =>
      if m = Word.fetch then some .fetch
      else if m = Word.set then
        (responseId doc).toOption.map fun id =>
          .set id ((doc.member Jsonrpc.params).member Word.value)
      else none
  | _ => none

/-- What the owner says. -/
inductive Report where
  | value (v : Json)
  | response (route : Json) (reply : ResponseDoc)

def readReport (doc : Json) : Option Report :=
  if h : doc.member Jsonrpc.method = .null then some (.response (doc.member Jsonrpc.id) ⟨doc, h⟩)
  else
    match doc.member Jsonrpc.method with
    | .string m =>
        if m = Word.add ∨ m = Word.change then
          some (.value ((doc.member Jsonrpc.params).member Word.value))
        else none
    | _ => none

/-- A request on its way to the owner, with the id the daemon gave it. -/
structure Routed where
  route : Json
  value : Json

def Routed.telegram (path : String) (c : Routed) : Json :=
  .object [("id", c.route), ("method", .string path), ("params", .object [("value", c.value)])]

/-- What the daemon answers where it does not know the path. -/
def notFound : ResponseDoc := ⟨withError .null (-32602) "Invalid params", rfl⟩

/-! ### The network -/

/-- What does not change. -/
structure Site (ι : Type*) where
  path : String
  env : Env
  fetchId : ι → FetchId
  matcher : ι → Matcher
  isInt : ∀ i, IsInt (fetchId i)

structure Network (ι : Type*) where
  owner : Owner
  /-- From the daemon to the owner. -/
  calls : List Routed := []
  /-- From the owner to the daemon. -/
  reports : List Json
  /-- What the daemon holds for the path. -/
  held : Option Json := none
  fetched : ι → Bool := fun _ => false
  /-- Whose request an id of the daemon stands for; `some none` if it has gone. -/
  routes : Json → Option (Option (ι × UInt32)) := fun _ => none
  clients : ι → Client

inductive NetworkAction (ι : Type*) where
  /-- A client calls `setStateValueAsync`. -/
  | ask (i : ι) (value : Json)
  /-- The daemon reads from a client; `route` is the id a request is passed on with. -/
  | deliver (i : ι) (route : Json)
  /-- The owner reads. -/
  | serve
  /-- The daemon reads from the owner. -/
  | report
  /-- The daemon notifies a client of another state. -/
  | other (i : ι) (n : Notice)
  /-- A client reads. -/
  | receive (i : ι)
  /-- A client loses its connection. -/
  | lose (i : ι)
  /-- A client calls `resume`. -/
  | resume (i : ι)

namespace Network

variable {ι : Type*} [DecidableEq ι]

def start (site : Site ι) (value : Json) (timeout : ℚ) : Network ι where
  owner := Owner.start site.path value
  reports := [addTelegram site.path value timeout]
  clients i := Client.start (site.fetchId i) (site.matcher i)

def withClient (s : Network ι) (i : ι) (c : Client) : Network ι :=
  { s with clients := Function.update s.clients i c }

/-- The request `id` of client `i` goes to the owner. -/
def passOn (s : Network ι) (i : ι) (c : Client) (id : UInt32) (call : Routed) : Network ι :=
  { s.withClient i c with
    calls := s.calls ++ [call]
    routes := Function.update s.routes call.route (some (some (i, id))) }

/-- The daemon has read `order` from client `i`, which is `c` now. -/
def order (site : Site ι) (s : Network ι) (i : ι) (c : Client) (route : Json) :
    Order → Option (Network ι)
  | .fetch =>
      some { s.withClient i
          (c.push (s.held.toList.map fun v => .notice ⟨.add, site.path, v⟩)) with
        fetched := Function.update s.fetched i true }
  | .set id value =>
      if s.held = none then some (s.withClient i (c.push [.response id notFound]))
      else if s.routes route = none then
        some (s.passOn i c id ⟨route, value⟩)
      else none

/-- The response to the request `id` of client `i` goes to the client. -/
def passBack (s : Network ι) (i : ι) (id : UInt32) (route : Json) (reply : ResponseDoc) :
    Network ι :=
  { s.withClient i ((s.clients i).push [.response id reply]) with
    routes := Function.update s.routes route none }

/-- The daemon has read `report` from the owner. -/
def pass (site : Site ι) (s : Network ι) : Report → Network ι
  | .value v =>
      let event := if s.held = none then CacheEvent.add else .change
      { s with
        held := some v
        clients := fun i =>
          if s.fetched i then (s.clients i).push [.notice ⟨event, site.path, v⟩]
          else s.clients i }
  | .response route reply =>
      match s.routes route with
      | some (some (i, id)) => s.passBack i id route reply
      | some none => { s with routes := Function.update s.routes route none }
      | none => s

/-- The connection of client `i` is lost. -/
def lose (s : Network ι) (i : ι) : Network ι :=
  { s.withClient i (s.clients i).lose with
    fetched := Function.update s.fetched i false
    routes := fun r => (s.routes r).map fun q => q.filter fun q => q.1 ≠ i }

def step (site : Site ι) (s : Network ι) : NetworkAction ι → Option (Network ι)
  | .ask i value =>
      if (s.clients i).connected then
        some (s.withClient i ((s.clients i).ask site.path value))
      else none
  | .deliver i route =>
      match (s.clients i).out with
      | data :: rest =>
          let c := { s.clients i with out := rest }
          match readOrder data with
          | some o => s.order site i c route o
          | none => some (s.withClient i c)
      | [] => none
  | .serve =>
      match s.calls with
      | call :: rest =>
          let (owner, docs) := s.owner.handle site.env (call.telegram site.path)
          some { s with owner := owner, calls := rest, reports := s.reports ++ docs }
      | [] => none
  | .report =>
      match s.reports with
      | data :: rest =>
          let s := { s with reports := rest }
          some (match readReport data with
            | some r => s.pass site r
            | none => s)
      | [] => none
  | .other i n =>
      if s.fetched i ∧ n.path ≠ site.path then
        some (s.withClient i ((s.clients i).push [.notice n]))
      else none
  | .receive i =>
      match (s.clients i).inbox with
      | d :: rest =>
          let c := { s.clients i with inbox := rest }
          some (s.withClient i (c.handle (d.telegram (site.fetchId i))))
      | [] => none
  | .lose i => if (s.clients i).connected then some (s.lose i) else none
  | .resume i =>
      if (s.clients i).connected then none
      else some (s.withClient i (s.clients i).resume)

def machine (site : Site ι) : Machine (Network ι) (NetworkAction ι) := ⟨step site⟩

/-- What a step can do. -/
inductive Moves (site : Site ι) (s : Network ι) : NetworkAction ι → Network ι → Prop
  | ask {i : ι} {value : Json} (hconnected : (s.clients i).connected = true) :
      Moves site s (.ask i value) (s.withClient i ((s.clients i).ask site.path value))
  /-- The daemon does not understand the client. -/
  | skip {i : ι} {route doc : Json} {rest : List Json} (hout : (s.clients i).out = doc :: rest)
      (hread : readOrder doc = none) :
      Moves site s (.deliver i route) (s.withClient i { s.clients i with out := rest })
  | order {i : ι} {route doc : Json} {rest : List Json} {o : Order} {t : Network ι}
      (hout : (s.clients i).out = doc :: rest) (hread : readOrder doc = some o)
      (ht : s.order site i { s.clients i with out := rest } route o = some t) :
      Moves site s (.deliver i route) t
  | serve {call : Routed} {rest : List Routed} (hcalls : s.calls = call :: rest) :
      Moves site s .serve { s with
        owner := (s.owner.handle site.env (call.telegram site.path)).1
        calls := rest
        reports := s.reports ++ (s.owner.handle site.env (call.telegram site.path)).2 }
  /-- The daemon does not understand the owner. -/
  | ignore {doc : Json} {rest : List Json} (hreports : s.reports = doc :: rest)
      (hread : readReport doc = none) : Moves site s .report { s with reports := rest }
  | pass {doc : Json} {rest : List Json} {r : Report} (hreports : s.reports = doc :: rest)
      (hread : readReport doc = some r) :
      Moves site s .report (pass site { s with reports := rest } r)
  | other {i : ι} {n : Notice} (hfetched : s.fetched i = true) (hpath : n.path ≠ site.path) :
      Moves site s (.other i n) (s.withClient i ((s.clients i).push [.notice n]))
  | receive {i : ι} {d : Incoming} {rest : List Incoming}
      (hinbox : (s.clients i).inbox = d :: rest) :
      Moves site s (.receive i) (s.withClient i
        (Client.handle { s.clients i with inbox := rest } (d.telegram (site.fetchId i))))
  | lose {i : ι} (hconnected : (s.clients i).connected = true) : Moves site s (.lose i) (s.lose i)
  | resume {i : ι} (hconnected : (s.clients i).connected = false) :
      Moves site s (.resume i) (s.withClient i (s.clients i).resume)

theorem step_moves {site : Site ι} {s t : Network ι} {a : NetworkAction ι}
    (h : step site s a = some t) : Moves site s a t := by
  cases a with
  | ask i value =>
      obtain ⟨hconnected, h⟩ := Option.ite_none_right_eq_some.mp h
      obtain rfl := Option.some.inj h
      exact .ask hconnected
  | deliver i route =>
      rcases hout : (s.clients i).out with - | ⟨doc, rest⟩
      · simp only [step, hout] at h
        cases h
      · simp only [step, hout] at h
        rcases hread : readOrder doc with - | o
        · rw [hread] at h
          obtain rfl := Option.some.inj h
          exact .skip hout hread
        · rw [hread] at h
          exact .order hout hread h
  | serve =>
      rcases hcalls : s.calls with - | ⟨call, rest⟩
      · simp only [step, hcalls] at h
        cases h
      · simp only [step, hcalls] at h
        obtain rfl := Option.some.inj h
        exact .serve hcalls
  | report =>
      rcases hreports : s.reports with - | ⟨doc, rest⟩
      · simp only [step, hreports] at h
        cases h
      · simp only [step, hreports] at h
        obtain rfl := Option.some.inj h
        rcases hread : readReport doc with - | r
        · exact .ignore hreports hread
        · exact .pass hreports hread
  | other i n =>
      obtain ⟨⟨hfetched, hpath⟩, h⟩ := Option.ite_none_right_eq_some.mp h
      obtain rfl := Option.some.inj h
      exact .other hfetched hpath
  | receive i =>
      rcases hinbox : (s.clients i).inbox with - | ⟨d, rest⟩
      · simp only [step, hinbox] at h
        cases h
      · simp only [step, hinbox] at h
        obtain rfl := Option.some.inj h
        exact .receive hinbox
  | lose i =>
      obtain ⟨hconnected, h⟩ := Option.ite_none_right_eq_some.mp h
      obtain rfl := Option.some.inj h
      exact .lose hconnected
  | resume i =>
      obtain ⟨hconnected, h⟩ := Option.ite_none_left_eq_some.mp h
      obtain rfl := Option.some.inj h
      exact .resume (Bool.not_eq_true _ ▸ hconnected)

/-- No id is used while the response to an earlier request with it is expected,
and the socket takes the notification of a change. -/
def Regular (site : Site ι) (s : Network ι) : NetworkAction ι → Prop
  | .ask i _ =>
      let requests := (s.clients i).registry.requests
      requests.openRequestCbs.lookup (requests.sid + 1) = none
  | .serve => ∀ call ∈ s.calls.head?,
      ChangeAccepted site.env site.path (setCb s.owner.value call.value).2.value
  | _ => True

/-- What the owner changes the value to. -/
def changed (site : Site ι) (s : Network ι) (a : NetworkAction ι) : List Json :=
  match step site s a with
  | some t => if t.owner.value = s.owner.value then [] else [t.owner.value]
  | none => []

/-- What the callback of client `i` is told about the state; `none` is the end
of a connection. -/
def told (site : Site ι) (i : ι) (s : Network ι) : NetworkAction ι → List (Option Json)
  | .receive j =>
      match (s.clients j).inbox with
      | .notice n :: _ => if j = i ∧ n.path = site.path then [some n.value] else []
      | _ => []
  | .lose j => if j = i then [none] else []
  | _ => []

end Network

/-! ### One telegram -/

/-- A response to a request with this id that is no error. -/
def IsSuccess (route doc : Json) : Prop :=
  ∃ h : doc.member Jsonrpc.method = .null,
    readReport doc = some (.response route ⟨doc, h⟩) ∧ isError doc = false

/-- What the owner does with a request, and what it sends.  The response may
be lost, the change is not. -/
inductive Owner.Serves (path : String) (o : Owner) (call : Routed) : Owner → List Json → Prop
  | ignored : Serves path o call o []
  | served (answer : List Json)
      (hanswer : answer = [] ∨ ∃ doc, answer = [doc] ∧ IsSuccess call.route doc) :
      Serves path o call ⟨call.value, o.registry⟩
        ((if o.value = call.value then [] else [changeNotification path call.value]) ++ answer)

theorem readReport_changeNotification (path : String) (value : Json) :
    readReport (changeNotification path value) = some (.value value) := rfl

theorem isSuccess_withRequestId (data : Json) (r : SetStateResult) :
    IsSuccess (data.member Jsonrpc.id) (withRequestId data (successResponse r)) := by
  have hmethod : (withRequestId data (successResponse r)).member Jsonrpc.method = .null := by
    rw [withRequestId, Json.member_set_of_ne _ (by decide), successResponse_eq]
    rfl
  refine ⟨hmethod, ?_, (Json.isMember_set_of_ne _ (by decide)).trans
    (hasResult_successResponse r).2⟩
  rw [readReport, dif_pos hmethod]
  exact congrArg (fun route => some (Report.response route ⟨_, hmethod⟩))
    (Json.member_set_self _ _ _)

/-- Once the change is out, the owner is done but for the response. -/
theorem Owner.serves_of_respond {env : Env} {path : String} {o : Owner} {call : Routed}
    {returned : Bool} (hhandling : o.handling env (call.telegram path) =
      respond (ownerEnv env o.value) (call.telegram path) (successResponse {})
        { registry := o.registry
          sent := if o.value = call.value then [] else [changeNotification path call.value]
          dispatched := [.state path (some 0) call.value returned] }) :
    o.Serves path call (o.handle env (call.telegram path)).1
      (o.handle env (call.telegram path)).2 := by
  have hvalue : (setCb o.value call.value).1 = call.value := by
    unfold setCb
    split_ifs with h
    · exact h
    · rfl
  have hroute : IsSuccess call.route (withRequestId (call.telegram path) (successResponse {})) :=
    isSuccess_withRequestId (call.telegram path) {}
  rw [Owner.handle, hhandling]
  rcases @respond_cases (ownerEnv env o.value) (call.telegram path) _ (successResponse {})
    with h | h
  · rw [h]
    show o.Serves path call ⟨(setCb o.value call.value).1, o.registry⟩ _
    rw [hvalue, ← List.append_nil (ite _ _ _)]
    exact .served [] (.inl rfl)
  · rw [h]
    show o.Serves path call ⟨(setCb o.value call.value).1, o.registry⟩ _
    rw [hvalue]
    exact .served _ (.inr ⟨_, rfl, hroute⟩)

/-- **The owner**: `handleMessage`, `setCb` and the notification together. -/
theorem Owner.handle_telegram {env : Env} {path : String} {o : Owner} {call : Routed}
    (hregistered : o.registry.tables.stateCallbacks.lookup path = some (some 0))
    (haccepted : ChangeAccepted env path (setCb o.value call.value).2.value) :
    o.Serves path call (o.handle env (call.telegram path)).1
      (o.handle env (call.telegram path)).2 := by
  have hserved : JetPeer.Served (call.telegram path) path { registry := o.registry } :=
    ⟨⟨_, rfl⟩, rfl, .inl (AList.lookup_isSome.mp (by rw [hregistered]; rfl))⟩
  rcases @handleMessage_served (ownerEnv env o.value) _ _ path hserved with
    ⟨callback, hs, ⟨hhas, hm⟩ | ⟨hno, hm⟩⟩ | ⟨hs, -⟩
  · obtain rfl : some 0 = callback := Option.some.inj (hregistered.symm.trans hs)
    refine @serves_of_respond env path o call true (hm.trans ?_)
    have hvalue : ((call.telegram path).member Jsonrpc.params).member Word.value = call.value := rfl
    by_cases heq : o.value = call.value
    · have hset : (setCb o.value call.value).2 = {} := by rw [setCb, if_pos heq]
      simp only [handleState, ownerEnv, hvalue, hset, if_pos heq]
      rfl
    · have hset : (setCb o.value call.value).2 = { value := call.value } := by
        rw [setCb, if_neg heq]
      have hnull : ¬ call.value.isNull = true := by
        rw [← hvalue, hhas.2]
        exact Bool.false_ne_true
      rw [hset] at haccepted
      obtain ⟨hfits, hsocket⟩ := haccepted.resolve_left hnull
      have hsend := fun s : Peer => @sendMessage_eq_ok (ownerEnv env o.value) _ s hsocket hfits
      simp only [handleState, ownerEnv, hvalue, hset, if_neg hnull, if_neg heq] at hsend ⊢
      rw [hsend]
      rfl
  · have hhandling : o.handling env (call.telegram path) = { registry := o.registry } := hm
    rw [Owner.handle, hhandling]
    exact .ignored
  · rw [hregistered] at hs
    cases hs

section

variable {c : Client} {fetchId : FetchId}

theorem Client.handling_notice {f : Fetcher} {n : Notice} (hid : IsInt fetchId)
    (hf : c.registry.tables.fetchers.lookup fetchId = some f) (hcb : f.callback = some 0) :
    c.handling ((Incoming.notice n).telegram fetchId) =
      { registry := c.registry
        dispatched := [.notification fetchId (some 0) n.params 0] } := by
  rw [Client.handling, Incoming.telegram, handleMessage_of_ok (target_message hid hf)]
  show (handleFetch _ _ _ _ _).1 = _
  rw [handleFetch, hcb]
  rfl

theorem target_withId {t : Tables} (id : UInt32) (reply : ResponseDoc) :
    target t (withId reply.1 id) = .ok (.response id) := by
  have hmethod : (withId reply.1 id).member Jsonrpc.method = .null := by
    rw [withId, Json.member_set_of_ne _ (by decide), reply.2]
  have hid : (withId reply.1 id).member Jsonrpc.id = .uint id.toNat := Json.member_set_self _ _ _
  obtain ⟨ms, hms⟩ : ∃ ms, withId reply.1 id = .object ms := Json.set_eq_object _ _ _
  rw [target_eq (.inr ⟨ms, hms⟩), hmethod]
  show (responseId _).map _ = _
  rw [responseId, HasMembers.at_eq (.inr ⟨ms, hms⟩), hid]
  show (Json.asUInt _).map _ = _
  rw [Json.asUInt_uint_toNat]
  rfl

theorem Client.handling_response {id : UInt32} {reply : ResponseDoc} {k : Callback}
    (hk : c.registry.requests.callback id = some k) :
    c.handling ((Incoming.response id reply).telegram fetchId) =
      { registry := { c.registry with requests := c.registry.requests.erase id }
        dispatched := [.response (some k) (withId reply.1 id)] } := by
  obtain ⟨r, hr, hrk⟩ := Option.bind_eq_some_iff.mp hk
  have htake : c.registry.requests.take id = some (r, c.registry.requests.erase id) :=
    RequestTable.take_eq_some.mpr ⟨hr, rfl⟩
  rw [Client.handling, Incoming.telegram, handleMessage_of_ok (target_withId id reply)]
  show (handleResponse _ _ _ _).1 = _
  simp only [handleResponse, htake, hrk]
  rfl

/-- A notification writes the cache. -/
theorem Client.handle_notice {f : Fetcher} {n : Notice} (hid : IsInt fetchId)
    (hf : c.registry.tables.fetchers.lookup fetchId = some f) (hcb : f.callback = some 0) :
    c.handle ((Incoming.notice n).telegram fetchId) =
      { c with cache := c.cache.after n.params 0 } := by
  rw [Client.handle, Client.handling_notice hid hf hcb]
  rfl

/-- A response is no longer expected afterwards. -/
theorem Client.handle_response {id : UInt32} {reply : ResponseDoc} {k : Callback}
    (hk : c.registry.requests.callback id = some k) :
    c.handle ((Incoming.response id reply).telegram fetchId) =
      { c with registry := { c.registry with requests := c.registry.requests.erase id } } := by
  rw [Client.handle, Client.handling_response hk]
  rfl

/-! ### Requests and their values -/

theorem readOrder_fetch (params : Json) :
    readOrder (requestDoc Word.fetch params) = some .fetch := rfl

theorem readOrder_set (path : String) (value : Json) (id : UInt32) :
    readOrder (withId (requestDoc Word.set
      ((Json.null.set Word.path (.string path)).set Word.value value)) id)
        = some (.set id value) := by
  have hid : responseId (withId (requestDoc Word.set
      ((Json.null.set Word.path (.string path)).set Word.value value)) id) = .ok id :=
    Json.asUInt_uint_toNat id
  rw [readOrder]
  show Option.map _ (Except.toOption (responseId _)) = _
  rw [hid]
  rfl

variable {path : String} {value w : Json} {id : UInt32}

theorem Client.requested_ask_self :
    (c.ask path value).requested (c.registry.requests.sid + 1) = some value := by
  have hk : (c.ask path value).registry.requests.callback (c.registry.requests.sid + 1)
      = some c.asked.length := RequestTable.callback_enter_self
  rw [Client.requested, hk]
  exact List.getElem?_concat_length

/-- What was asked for before stays. -/
theorem Client.requested_ask
    (hfresh : c.registry.requests.openRequestCbs.lookup (c.registry.requests.sid + 1) = none)
    (h : c.requested id = some w) : (c.ask path value).requested id = some w := by
  obtain ⟨k, hk, hw⟩ := Option.bind_eq_some_iff.mp h
  have hid : id ≠ c.registry.requests.sid + 1 := by
    rintro rfl
    rw [RequestTable.callback, hfresh] at hk
    cases hk
  have hk' : (c.ask path value).registry.requests.callback id = some k :=
    (RequestTable.callback_enter_of_ne hid).trans hk
  rw [Client.requested, hk']
  exact (List.getElem?_append_left (List.getElem?_eq_some_iff.mp hw).1).trans hw

theorem Client.requested_erase {i : UInt32} (h : i ≠ id) :
    Client.requested { c with registry :=
      { c.registry with requests := c.registry.requests.erase id } } i = c.requested i := by
  simp only [Client.requested, RequestTable.callback_erase_of_ne h]

end

end JetPeer
