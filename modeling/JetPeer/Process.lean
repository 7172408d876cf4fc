/-
JetPeer/Process.lean

A process with any number of peers and threads, in small steps.

User code calls the API from idle threads and from inside the callbacks the
library invokes, and a callback may be invoked in the middle of `stop()` or
of a batch.  So a thread is a stack of frames, each of them the rest of a
function of the library or a user supplied function (`Frame.user`), and one
turn lets the frame on top go on to the next point where others may be heard.

What a turn does to the state it says in events.  An event carries the peer it
happens to, and `Shared.apply` is what it does, table by table; the state
keeps the log of all events, the newest first.  Invariants are then shown
event by event: `sound_effect` says of every event when it happens
(`Proper`), and of every frame where it comes from (`Pushed`).

The open requests belong to the process, all else to one peer.  Of the locks
only `m_receiveMutex` matters: a peer works on one telegram at a time.  The
others only forbid interleavings.  `AsyncRequest::clear` holds its lock over
all callbacks, so nobody sees the table before it is empty.
-/
import JetPeer.Dispatch
import JetPeer.Registration
import JetPeer.Threads

namespace JetPeer

open Runs

/-! ### What happens -/

/-- The result callback of an open request, by what its lambda captures: the
peer, the item to roll back, and the user's callback.  Without one it is the
lambda of `executeSync`, which sets the promise of the request. -/
structure Closure where
  peer : ℕ
  item : Option Item := none
  /-- The number of the request object. -/
  serial : ℕ
  callback : Option Callback := none
  deriving DecidableEq

inductive Event where
  /-- An entry is made for the add or fetch request with these params. -/
  | registered (r : Registration) (serial : ℕ) (params : Json)
  /-- `removeStateAsync`, `removeMethodAsync`, `removeFetchAsync`. -/
  | removed (item : Item)
  /-- The answer to an add is dealt with; `cause` is the peer it came to. -/
  | answered (cause : ℕ) (item : Item) (serial : ℕ) (result : Json)
  | cleared (part : Part)
  | issued
  | opened (id : UInt32) (closure : Closure)
  | installed (id : UInt32) (n : ErrorNotifier)
  /-- `handleResult` takes an entry. -/
  | completed (id : UInt32)
  | cancelled
  | destroyed (id : UInt32)
  | fulfilled (serial : ℕ) (result : Json)
  | connected
  | disconnected
  | arrived (ms : List Json)
  | handled (m : Json)
  /-- The telegram is done with, or an exception left `receiveCallback`. -/
  | left
  | called (fetchId : FetchId) (callback : Callback) (params : Json) (status : Int)
  | sent (doc : Json)

structure PeerState where
  name : String := ""
  debug : Bool := false
  tables : Tables := {}
  connected : Bool := false
  /-- What is left of the telegram `receive` works on, while it holds
  `m_receiveMutex`. -/
  telegram : Option (List Json) := none

/-- What the threads share. -/
structure Shared where
  peers : ℕ → PeerState := fun _ => {}
  requests : RequestTable Closure := {}
  /-- How often `m_sfetchId` was incremented. -/
  fetchCount : ℕ := 0
  /-- The peer of each request object. -/
  issuers : List ℕ := []
  promises : ℕ → Option Json := fun _ => none
  log : List (ℕ × Event) := []

namespace Event

def onTables : Event → Tables → Tables
  | .registered r _ _, t => t.add r
  | .removed item, t => t.discard item
  | .answered _ item _ result, t => t.rollBack result item
  | .cleared part, t => t.clear part
  | _, t => t

def onConnected : Event → Bool → Bool
  | .connected, _ => true
  | .disconnected, _ => false
  | _, c => c

def onTelegram : Event → Option (List Json) → Option (List Json)
  | .arrived ms, _ => some ms
  | .handled _, t => t.map List.tail
  | .left, _ => none
  | _, t => t

def onRequests : Event → RequestTable Closure → RequestTable Closure
  | .opened _ closure, t => t.enter closure
  | .installed id n, t => t.installNotifier id n
  | .completed id, t => t.erase id
  | .destroyed id, t => t.erase id
  | .cancelled, t => t.clear
  | _, t => t

def onFetchCount : Event → ℕ → ℕ
  | .registered (.fetch _ _) _ _, n => n + 1
  | _, n => n

def onPromises : Event → (ℕ → Option Json) → ℕ → Option Json
  | .fulfilled serial result, f => Function.update f serial (some result)
  | _, f => f

def onPeer (e : Event) (s : PeerState) : PeerState :=
  { s with
    tables := e.onTables s.tables
    connected := e.onConnected s.connected
    telegram := e.onTelegram s.telegram }

end Event

namespace Shared

/-- What an event does. -/
def apply (sh : Shared) (pe : ℕ × Event) : Shared where
  peers := Function.update sh.peers pe.1 (pe.2.onPeer (sh.peers pe.1))
  requests := pe.2.onRequests sh.requests
  fetchCount := pe.2.onFetchCount sh.fetchCount
  issuers := match pe.2 with
    | .issued => sh.issuers ++ [pe.1]
    | _ => sh.issuers
  promises := pe.2.onPromises sh.promises
  log := pe :: sh.log

def applyAll (sh : Shared) (es : List (ℕ × Event)) : Shared := es.foldl apply sh

end Shared

/-! ### Frames -/

inductive Frame where
  /-- A user supplied function. -/
  | user
  /-- `sendMessage` inside of `execute`, or alone; `waiting` is the id and the
  number of the request, if it has a result callback. -/
  | send (p : ℕ) (doc : Json) (waiting : Option (UInt32 × ℕ))
  | execute (closure : Closure) (doc : Json)
  | install (p : ℕ) (id : UInt32) (n : ErrorNotifier)
  /-- `f.get()` in `executeSync`, and what the caller does with the result. -/
  | await (p : ℕ) (item : Option Item) (serial : ℕ)
  | destroySync (p : ℕ) (id : UInt32)
  /-- A result callback taken out of the table. -/
  | invoke (cause : ℕ) (closure : Closure) (result : Json)
  | receive (p : ℕ)
  /-- The answer to a request to a state or method. -/
  | answer (p : ℕ)
  | connect (p : ℕ)
  | config (p : ℕ)
  | restore (p : ℕ)
  | stop (p : ℕ) (destroy : Bool)
  /-- The loop of `stop` over the fetches; it begins with those in `todo`. -/
  | notify (p : ℕ) (todo : Option (List FetchId)) (visited : List FetchId)
  | clear (p : ℕ) (part : Part)
  | clearRequests (p : ℕ)

/-- What a caller wants with the result of a request. -/
inductive Reply where
  | ignore
  | callback (cb : Callback)
  /-- The synchronous API: wait for it. -/
  | await

def Reply.synchronous : Reply → Bool
  | .await => true
  | _ => false

/-- The API. -/
inductive Call where
  | add (p : ℕ) (kind : Kind) (path : String) (value params : Json)
      (callback : Option Callback) (reply : Reply)
  | addFetch (p : ℕ) (m : Matcher) (callback : Option Callback) (reply : Reply)
  | remove (p : ℕ) (kind : Kind) (path : String) (reply : Reply)
  | removeFetch (p : ℕ) (fetchId : FetchId) (reply : Reply)
  | request (p : ℕ) (name : String) (params : Json) (reply : Reply)
  | sendMessage (p : ℕ) (doc : Json)
  | stop (p : ℕ)
  | destroy (p : ℕ)
  /-- `resume()`, and the constructor. -/
  | resume (p : ℕ)

/-- What the code leaves open: how a send or a connection attempt ends, and in
which order the elements of an `unordered_map` come. -/
inductive Choice where
  | go
  | threw (e : JsonrpcException)
  | refused
  | order (ids : List (FetchId × Bool))
  | cancel (ids : List UInt32)
  | next (fetchId : FetchId)
  | done
  | answers (docs : List Json)

/-- A step of a thread: user code calls or returns, the library goes on, or
the event loop has found something. -/
inductive Action where
  | call (c : Call)
  | ret
  | run (c : Choice)
  | telegram (p : ℕ) (ms : List Json)
  | lost (p : ℕ)
  | notifier (key id : UInt32)

/-- What a turn comes to: events, and frames in place of the one on top. -/
abbrev Effect := List (ℕ × Event) × List Frame

namespace Shared

/-- `createFetchId`: `m_sfetchId` is an `int` and wraps around. -/
def nextFetchId (sh : Shared) : FetchId := (BitVec.ofNat 32 (sh.fetchCount + 1)).toInt

/-! ### Calls -/

/-- The constructor of a request and `execute`. -/
def request (sh : Shared) (p : ℕ) (doc : Json) (item : Option Item) (reply : Reply) : Effect :=
  ([(p, .issued)],
    match reply with
    | .ignore => [.send p doc none]
    | .callback cb => [.execute ⟨p, item, sh.issuers.length, some cb⟩ doc]
    | .await => [.execute ⟨p, item, sh.issuers.length, none⟩ doc])

/-- Everything a call does up to the send.  The registries change first, in
an add as in a remove. -/
def call (sh : Shared) : Call → Effect
  | .add p kind path value params callback reply =>
      let params := addParams reply.synchronous path value params callback kind
      let (es, frames) := sh.request p (requestDoc Word.add params) (some (.served kind path)) reply
      ((p, .registered (.served kind path callback) sh.issuers.length params) :: es, frames)
  | .addFetch p m callback reply =>
      let params := addFetchParams m sh.nextFetchId
      let (es, frames) :=
        sh.request p (requestDoc Word.fetch params) (some (.fetch sh.nextFetchId)) reply
      ((p, .registered (.fetch sh.nextFetchId ⟨callback, m⟩) sh.issuers.length params) :: es,
        frames)
  | .remove p kind path reply =>
      if path = "" then ([], [])
      else
        let (es, frames) := sh.request p (requestDoc Word.remove (removeParams path)) none reply
        ((p, .removed (.served kind path)) :: es, frames)
  | .removeFetch p fetchId reply =>
      let (es, frames) :=
        sh.request p (requestDoc Word.unfetch (removeFetchParams fetchId)) none reply
      ((p, .removed (.fetch fetchId)) :: es, frames)
  | .request p name params reply => sh.request p (requestDoc name params) none reply
  | .sendMessage p doc => ([], [.send p doc none])
  | .stop p => ([], [.stop p false])
  | .destroy p => ([], [.stop p true])
  | .resume p => ([], [.connect p])

/-! ### Incoming messages -/

/-- `handleResult` with the id already read. -/
def complete (sh : Shared) (p : ℕ) (id : UInt32) (result : Json) : Effect :=
  match sh.requests.take id with
  | none => ([], [])
  | some (r, _) =>
      ([(p, .completed id)], r.responseCallback.toList.map fun cl => .invoke p cl result)

/-- A callback is called, then the request is answered. -/
def serve (p : ℕ) (callback : Option Callback) : Effect :=
  ([], (callback.toList.map fun _ => Frame.user) ++ [.answer p])

/-- An empty callback throws, and the exception is logged. -/
def callFetch (p : ℕ) (fetchId : FetchId) (fetcher : Fetcher) (params : Json) (status : Int) :
    Effect :=
  match fetcher.callback with
  | none => ([], [])
  | some cb => ([(p, .called fetchId cb params status)], [.user])

/-- `handleMessage`; `none` is an exception that leaves it. -/
def handleMessage (sh : Shared) (p : ℕ) (m : Json) : Option Effect :=
  match target (sh.peers p).tables m with
  | .error _ => none
  | .ok (.response id) => some (sh.complete p id m)
  | .ok (.fetch fetchId fetcher params) => some (callFetch p fetchId fetcher params 0)
  | .ok (.state _ callback _) => some (serve p callback)
  | .ok (.method _ callback _) => some (serve p callback)
  | .ok .nothing => some ([], [])

/-- `receiveCallback`, one message at a time. -/
def receive (sh : Shared) (p : ℕ) : Option Effect :=
  match (sh.peers p).telegram with
  | none => none
  | some [] => some ([(p, .left)], [])
  | some (m :: _) =>
      match sh.handleMessage p m with
      | none => some ([(p, .handled m), (p, .left)], [])
      | some (es, frames) => some ((p, .handled m) :: es, frames ++ [.receive p])

/-! ### The rest of a function -/

/-- The requests `start` sends for the known fetches, as far as they are
accepted. -/
def restoreDocs (t : Tables) (ids : List (FetchId × Bool)) : List Json :=
  ids.filterMap fun i =>
    if i.2 then
      (t.fetchers.lookup i.1).map fun f =>
        requestDoc Word.fetch (restoreFetchParams f.matcher i.1)
    else none

/-- `AsyncRequest::clear`: the callbacks invoked, in the order of `ids`. -/
def cancelFrames (sh : Shared) (p : ℕ) (ids : List UInt32) : List Frame :=
  ids.filterMap fun id => (sh.requests.callback id).map fun cl => .invoke p cl (cancelResponse id)

/-- What follows a disconnect in `stop`, and in the destructor. -/
def teardown (p : ℕ) (destroy : Bool) : List Frame :=
  [.notify p none [], .clear p .states, .clear p .methods, .clearRequests p] ++
    if destroy then [.clear p .fetchers] else []

/-- The result of an add. -/
def answerAdd (p cause : ℕ) (item : Option Item) (serial : ℕ) (result : Json) :
    List (ℕ × Event) :=
  item.toList.map fun i => (p, .answered cause i serial result)

/-- The frame on top goes on. -/
def run (sh : Shared) : Frame → Choice → Option Effect
  | .send p doc _, .go => if (sh.peers p).connected then some ([(p, .sent doc)], []) else none
  | .send p _ (some (id, serial)), .threw e => some ([], [.install p id ⟨serial, e⟩])
  | .send _ _ none, .threw _ => some ([], [])
  | .execute cl doc, .go =>
      let id := sh.requests.sid + 1
      some ([(cl.peer, .opened id cl)],
        .send cl.peer (withId doc id) (some (id, cl.serial)) ::
          match cl.callback with
          | some _ => []
          | none => [.await cl.peer cl.item cl.serial, .destroySync cl.peer id])
  | .install p id n, .go => some ([(p, .installed id n)], [])
  | .await p item serial, .go =>
      (sh.promises serial).map fun result => (answerAdd p p item serial result, [])
  | .destroySync p id, .go => some ([(p, .destroyed id)], [])
  | .invoke cause cl result, .go =>
      match cl.callback with
      | none => some ([(cl.peer, .fulfilled cl.serial result)], [])
      | some _ => some (answerAdd cl.peer cause cl.item cl.serial result, [.user])
  | .receive p, .go => sh.receive p
  | .answer p, .answers docs =>
      if docs = [] ∨ (sh.peers p).connected then
        some (docs.map fun doc => (p, .sent doc), [])
      else none
  | .connect p, .go => some ([(p, .connected)], [.config p, .restore p])
  | .connect _, .refused => some ([], [])
  | .config p, .go =>
      let s := sh.peers p
      some ([], [.send p (requestDoc Word.config (configParams s.name s.debug)) none])
  | .restore p, .order ids =>
      if (ids.map Prod.fst).Perm (sh.peers p).tables.fetchers.keys ∧
          ((sh.peers p).connected ∨ ∀ i ∈ ids, i.2 = false) then
        some ((restoreDocs (sh.peers p).tables ids).map fun doc => (p, .sent doc), [])
      else none
  | .stop p destroy, .go => some ([(p, .disconnected)], teardown p destroy)
  | .notify p none visited, .go =>
      some ([], [.notify p (some (sh.peers p).tables.fetchers.keys) visited])
  | .notify p (some todo) visited, .next fetchId =>
      match (sh.peers p).tables.fetchers.lookup fetchId with
      | none => none
      | some fetcher =>
          if fetchId ∈ visited then none
          else
            let (es, frames) := callFetch p fetchId fetcher .null (-1)
            some (es, frames ++ [.notify p (some todo) (fetchId :: visited)])
  | .notify p (some todo) visited, .done =>
      -- an element inserted meanwhile need not be visited
      if ∀ i ∈ todo, i ∈ visited ∨ i ∉ (sh.peers p).tables.fetchers then some ([], []) else none
  | .clear p part, .go => some ([(p, .cleared part)], [])
  | .clearRequests p, .cancel ids =>
      if ids.Perm sh.requests.openRequestCbs.keys then
        some ([(p, .cancelled)], sh.cancelFrames p ids)
      else none
  | _, _ => none

/-- What the frame on top does, with what it found. -/
inductive FrameTurn (sh : Shared) : Frame → Choice → Effect → Prop
  | sent {p doc waiting} (hconn : (sh.peers p).connected = true) :
      FrameTurn sh (.send p doc waiting) .go ([(p, .sent doc)], [])
  | threw {p doc id serial} (e : JsonrpcException) :
      FrameTurn sh (.send p doc (some (id, serial))) (.threw e)
        ([], [.install p id ⟨serial, e⟩])
  | dropped {p doc} (e : JsonrpcException) : FrameTurn sh (.send p doc none) (.threw e) ([], [])
  | execute (cl : Closure) (doc : Json) : FrameTurn sh (.execute cl doc) .go
      ([(cl.peer, .opened (sh.requests.sid + 1) cl)],
        .send cl.peer (withId doc (sh.requests.sid + 1))
            (some (sh.requests.sid + 1, cl.serial)) ::
          match cl.callback with
          | some _ => []
          | none => [.await cl.peer cl.item cl.serial,
              .destroySync cl.peer (sh.requests.sid + 1)])
  | install (p : ℕ) (id : UInt32) (n : ErrorNotifier) :
      FrameTurn sh (.install p id n) .go ([(p, .installed id n)], [])
  | await {p item serial result} (hresult : sh.promises serial = some result) :
      FrameTurn sh (.await p item serial) .go (answerAdd p p item serial result, [])
  | destroySync (p : ℕ) (id : UInt32) :
      FrameTurn sh (.destroySync p id) .go ([(p, .destroyed id)], [])
  | fulfil {cause cl result} (hcb : cl.callback = none) :
      FrameTurn sh (.invoke cause cl result) .go ([(cl.peer, .fulfilled cl.serial result)], [])
  | invoke {cause cl result cb} (hcb : cl.callback = some cb) :
      FrameTurn sh (.invoke cause cl result) .go
        (answerAdd cl.peer cause cl.item cl.serial result, [.user])
  | receive {p r} (h : sh.receive p = some r) : FrameTurn sh (.receive p) .go r
  | answer {p docs} (hconn : docs = [] ∨ (sh.peers p).connected = true) :
      FrameTurn sh (.answer p) (.answers docs) (docs.map fun doc => (p, .sent doc), [])
  | connect (p : ℕ) :
      FrameTurn sh (.connect p) .go ([(p, .connected)], [.config p, .restore p])
  | refused (p : ℕ) : FrameTurn sh (.connect p) .refused ([], [])
  | config (p : ℕ) : FrameTurn sh (.config p) .go
      ([], [.send p (requestDoc Word.config
        (configParams (sh.peers p).name (sh.peers p).debug)) none])
  | restore {p ids} (hperm : (ids.map Prod.fst).Perm (sh.peers p).tables.fetchers.keys)
      (hconn : (sh.peers p).connected = true ∨ ∀ i ∈ ids, i.2 = false) :
      FrameTurn sh (.restore p) (.order ids)
        ((restoreDocs (sh.peers p).tables ids).map fun doc => (p, .sent doc), [])
  | stop (p : ℕ) (destroy : Bool) :
      FrameTurn sh (.stop p destroy) .go ([(p, .disconnected)], teardown p destroy)
  | enter (p : ℕ) (visited : List FetchId) : FrameTurn sh (.notify p none visited) .go
      ([], [.notify p (some (sh.peers p).tables.fetchers.keys) visited])
  | visit {p todo visited fetchId fetcher}
      (hlookup : (sh.peers p).tables.fetchers.lookup fetchId = some fetcher)
      (hnew : fetchId ∉ visited) :
      FrameTurn sh (.notify p (some todo) visited) (.next fetchId)
        ((callFetch p fetchId fetcher .null (-1)).1,
          (callFetch p fetchId fetcher .null (-1)).2 ++
            [.notify p (some todo) (fetchId :: visited)])
  | done {p todo visited}
      (hall : ∀ i ∈ todo, i ∈ visited ∨ i ∉ (sh.peers p).tables.fetchers) :
      FrameTurn sh (.notify p (some todo) visited) .done ([], [])
  | clear (p : ℕ) (part : Part) : FrameTurn sh (.clear p part) .go ([(p, .cleared part)], [])
  | clearRequests {p ids} (hperm : ids.Perm sh.requests.openRequestCbs.keys) :
      FrameTurn sh (.clearRequests p) (.cancel ids) ([(p, .cancelled)], sh.cancelFrames p ids)

theorem run_turn {sh : Shared} {f : Frame} {c : Choice} {r : Effect} (h : sh.run f c = some r) :
    FrameTurn sh f c r := by
  unfold Shared.run at h
  split at h
  · obtain ⟨hconn, h⟩ := Option.ite_none_right_eq_some.mp h
    obtain rfl := Option.some.inj h
    exact .sent hconn
  · obtain rfl := Option.some.inj h
    exact .threw _
  · obtain rfl := Option.some.inj h
    exact .dropped _
  · obtain rfl := Option.some.inj h
    exact .execute _ _
  · obtain rfl := Option.some.inj h
    exact .install _ _ _
  · obtain ⟨result, hresult, rfl⟩ := Option.map_eq_some_iff.mp h
    exact .await hresult
  · obtain rfl := Option.some.inj h
    exact .destroySync _ _
  · split at h
    next hcb =>
      obtain rfl := Option.some.inj h
      exact .fulfil hcb
    next cb hcb =>
      obtain rfl := Option.some.inj h
      exact .invoke hcb
  · exact .receive h
  · obtain ⟨hconn, h⟩ := Option.ite_none_right_eq_some.mp h
    obtain rfl := Option.some.inj h
    exact .answer hconn
  · obtain rfl := Option.some.inj h
    exact .connect _
  · obtain rfl := Option.some.inj h
    exact .refused _
  · obtain rfl := Option.some.inj h
    exact .config _
  · obtain ⟨⟨hperm, hconn⟩, h⟩ := Option.ite_none_right_eq_some.mp h
    obtain rfl := Option.some.inj h
    exact .restore hperm hconn
  · obtain rfl := Option.some.inj h
    exact .stop _ _
  · obtain rfl := Option.some.inj h
    exact .enter _ _
  · split at h
    · cases h
    next fetcher hlookup =>
      obtain ⟨hnew, h⟩ := Option.ite_none_left_eq_some.mp h
      obtain rfl := Option.some.inj h
      exact .visit hlookup hnew
  · obtain ⟨hall, h⟩ := Option.ite_none_right_eq_some.mp h
    obtain rfl := Option.some.inj h
    exact .done hall
  · obtain rfl := Option.some.inj h
    exact .clear _ _
  · obtain ⟨hperm, h⟩ := Option.ite_none_right_eq_some.mp h
    obtain rfl := Option.some.inj h
    exact .clearRequests hperm
  · cases h

end Shared

/-! ### Turns -/

/-- User code runs on the thread. -/
def InUserCode : List Frame → Bool
  | [] => true
  | .user :: _ => true
  | _ => false

/-- What a thread does, as events and its new stack.  The event loop uses idle
threads.  The lambda of a notifier reads the id through `this`; its request
object is gone as soon as `execute` has returned, so the read may yield any
id. -/
def effect (sh : Shared) (stack : List Frame) : Action → Option Effect
  | .call c =>
      if InUserCode stack then
        let (es, frames) := sh.call c
        some (es, frames ++ stack)
      else none
  | .ret =>
      match stack with
      | .user :: rest => some ([], rest)
      | _ => none
  | .run c =>
      match stack with
      | f :: rest => (sh.run f c).map fun r => (r.1, r.2 ++ rest)
      | [] => none
  | .telegram p ms =>
      if stack = [] ∧ (sh.peers p).telegram = none ∧ (sh.peers p).connected then
        some ([(p, .arrived ms)], [.receive p])
      else none
  | .lost p =>
      if stack = [] ∧ (sh.peers p).telegram = none then
        some ([(p, .arrived [])], [.stop p false, .receive p])
      else none
  | .notifier key id =>
      match stack, (sh.requests.openRequestCbs.lookup key).bind Request.errorNotifier with
      | [], some n => (sh.issuers[n.request]?).map fun p =>
          sh.complete p id (errorResponse id n.error.code n.error.message)
      | _, _ => none

def turn (sh : Shared) (stack : List Frame) (a : Action) : Option (Shared × List Frame) :=
  (effect sh stack a).map fun r => (sh.applyAll r.1, r.2)

/-- A process: what its threads share, and their stacks. -/
abbrev Process := Threads Shared Frame

def processMachine : Machine Process (ℕ × Action) := threadMachine turn

/-! ### Components of the state -/

namespace Shared

variable (sh : Shared) (p q : ℕ) (e : Event)

@[simp] theorem requests_apply : (sh.apply (p, e)).requests = e.onRequests sh.requests := rfl

@[simp] theorem log_apply : (sh.apply (p, e)).log = (p, e) :: sh.log := rfl

@[simp] theorem fetchCount_apply : (sh.apply (p, e)).fetchCount = e.onFetchCount sh.fetchCount :=
  rfl

@[simp] theorem peers_apply_self : (sh.apply (p, e)).peers p = e.onPeer (sh.peers p) :=
  Function.update_self ..

variable {p q} in
theorem peers_apply_of_ne (h : q ≠ p) : (sh.apply (p, e)).peers q = sh.peers q :=
  Function.update_of_ne h ..

theorem tables_apply : ((sh.apply (p, e)).peers q).tables =
    if q = p then e.onTables (sh.peers q).tables else (sh.peers q).tables := by
  by_cases h : q = p
  · subst h
    rw [peers_apply_self, if_pos rfl]
    rfl
  · rw [peers_apply_of_ne _ _ h, if_neg h]

theorem connected_apply : ((sh.apply (p, e)).peers q).connected =
    if q = p then e.onConnected (sh.peers q).connected else (sh.peers q).connected := by
  by_cases h : q = p
  · subst h
    rw [peers_apply_self, if_pos rfl]
    rfl
  · rw [peers_apply_of_ne _ _ h, if_neg h]

theorem telegram_apply : ((sh.apply (p, e)).peers q).telegram =
    if q = p then e.onTelegram (sh.peers q).telegram else (sh.peers q).telegram := by
  by_cases h : q = p
  · subst h
    rw [peers_apply_self, if_pos rfl]
    rfl
  · rw [peers_apply_of_ne _ _ h, if_neg h]

theorem log_applyAll (es : List (ℕ × Event)) :
    (sh.applyAll es).log = es.reverse ++ sh.log := by
  induction es generalizing sh with
  | nil => rfl
  | cons e es ih =>
      show ((sh.apply e).applyAll es).log = _
      rw [ih, List.reverse_cons, List.append_assoc]
      rfl

end Shared

/-! ### When an event happens, and where a frame comes from -/

/-- `G` holds of each event in the state it happens in. -/
def Along (G : Shared → ℕ × Event → Prop) : Shared → List (ℕ × Event) → Prop
  | _, [] => True
  | sh, e :: es => G sh e ∧ Along G (sh.apply e) es

/-- Among the events `es` from `sh` on, `pe` happens in state `sh'`. -/
def Happens (sh : Shared) (es : List (ℕ × Event)) (sh' : Shared) (pe : ℕ × Event) : Prop :=
  ∃ es₁ es₂, es = es₁ ++ pe :: es₂ ∧ sh' = sh.applyAll es₁

theorem Along.of_happens {G : Shared → ℕ × Event → Prop} {sh sh' : Shared}
    {es : List (ℕ × Event)} {pe : ℕ × Event} (h : Along G sh es) (hpe : Happens sh es sh' pe) :
    G sh' pe := by
  obtain ⟨es₁, es₂, rfl, rfl⟩ := hpe
  induction es₁ generalizing sh with
  | nil => exact h.1
  | cons e es₁ ih => exact ih h.2

/-- The frames that call fetch callbacks, with the status they call them
with. -/
def Frame.calls : Frame → Option (ℕ × Int)
  | .receive p => some (p, 0)
  | .notify p _ _ => some (p, -1)
  | _ => none

/-- When an event happens to `p`, on a thread with this stack. -/
def Proper (stack : List Frame) (sh : Shared) : ℕ × Event → Prop
  | (_, .registered r serial params) => serial = sh.issuers.length ∧
      ∀ fetchId f, r = .fetch fetchId f →
        fetchId = sh.nextFetchId ∧ params = addFetchParams f.matcher fetchId
  | (p, .answered cause item serial result) =>
      (∃ cl, .invoke cause cl result ∈ stack ∧ cl.callback.isSome ∧ cl.peer = p ∧
        cl.item = some item ∧ cl.serial = serial) ∨
        (cause = p ∧ .await p (some item) serial ∈ stack)
  | (p, .cleared part) => .clear p part ∈ stack
  | (p, .opened id cl) => id = sh.requests.sid + 1 ∧ cl.peer = p ∧ ∃ doc, .execute cl doc ∈ stack
  | (p, .cancelled) => .clearRequests p ∈ stack
  | (p, .handled m) => ∃ ms, (sh.peers p).telegram = some (m :: ms)
  | (p, .left) => (sh.peers p).telegram = some [] ∨
      ∃ m e, (p, .handled m) ∈ sh.log ∧ target (sh.peers p).tables m = .error e
  | (p, .arrived _) => (sh.peers p).telegram = none
  | (p, .called fetchId cb _ status) =>
      (∃ f, (sh.peers p).tables.fetchers.lookup fetchId = some f ∧ f.callback = some cb) ∧
        ∃ f ∈ stack.head?, f.calls = some (p, status)
  | _ => True

/-- How a turn with the events `es` on a thread with this stack comes to push
a frame. -/
def Pushed (sh : Shared) (stack : List Frame) (a : Action) (es : List (ℕ × Event)) : Frame → Prop
  | .execute cl _ => ∀ item, cl.item = some item →
      ∃ r params, r.item = item ∧ (cl.peer, .registered r cl.serial params) ∈ es
  | .await p item serial => ∃ cl doc, .execute cl doc ∈ stack ∧ cl.peer = p ∧ cl.item = item ∧
      cl.serial = serial
  | .invoke cause cl result => ∃ id sh', sh'.requests.callback id = some cl ∧
      (Happens sh es sh' (cause, .completed id) ∨
        Happens sh es sh' (cause, .cancelled) ∧ result = cancelResponse id)
  | .stop p true => a = .call (.destroy p)
  | .clear p part => es = [(p, .disconnected)] ∧ (part = .fetchers → .stop p true ∈ stack)
  | .clearRequests p => es = [(p, .disconnected)]
  | _ => True

/-- What is known of a turn. -/
structure Sound (sh : Shared) (stack : List Frame) (a : Action) (r : Effect) : Prop where
  proper : Along (Proper stack) sh r.1
  pushed : ∀ f ∈ r.2, f ∈ stack ∨ Pushed sh stack a r.1 f

section

variable {sh : Shared} {stack rest : List Frame} {a : Action} {r : Effect} {f : Frame} {p : ℕ}
  {es : List (ℕ × Event)}

/-- Events about which there is nothing to know. -/
theorem along_proper_of_forall (h : ∀ pe ∈ es, ∀ sh, Proper stack sh pe) :
    Along (Proper stack) sh es := by
  induction es generalizing sh with
  | nil => trivial
  | cons pe es ih =>
      exact ⟨h pe List.mem_cons_self sh, ih fun pe' hpe => h pe' (List.mem_cons_of_mem _ hpe)⟩

theorem along_proper_sent {docs : List Json} :
    Along (Proper stack) sh (docs.map fun doc => (p, .sent doc)) := by
  refine along_proper_of_forall fun pe hpe sh => ?_
  obtain ⟨doc, -, rfl⟩ := List.mem_map.mp hpe
  trivial

theorem pushed_request {doc : Json} {item : Option Item} {reply : Reply}
    (hitem : ∀ i, item = some i →
      ∃ r params, r.item = i ∧ (p, .registered r sh.issuers.length params) ∈ es)
    (hf : f ∈ (sh.request p doc item reply).2) : Pushed sh stack a es f := by
  cases reply <;> obtain rfl := List.mem_singleton.mp hf
  · trivial
  · exact hitem
  · exact hitem

theorem sound_call {c : Call} : Sound sh stack (.call c) (sh.call c) := by
  cases c with
  | add p kind path value params callback reply =>
      refine ⟨⟨⟨rfl, fun _ _ h => nomatch h⟩, trivial, trivial⟩, fun f hf => .inr ?_⟩
      refine pushed_request (fun i hi => ?_) hf
      refine ⟨_, _, ?_, List.mem_cons_self⟩
      exact Option.some.inj hi
  | addFetch p m callback reply =>
      refine ⟨⟨⟨rfl, ?_⟩, trivial, trivial⟩, fun f hf => .inr ?_⟩
      · rintro _ _ h
        cases h
        exact ⟨rfl, rfl⟩
      · refine pushed_request (fun i hi => ?_) hf
        refine ⟨_, _, ?_, List.mem_cons_self⟩
        exact Option.some.inj hi
  | remove p kind path reply =>
      by_cases hpath : path = ""
      · simp only [Shared.call, if_pos hpath]
        exact ⟨trivial, fun f hf => absurd hf List.not_mem_nil⟩
      · simp only [Shared.call, if_neg hpath]
        exact ⟨⟨trivial, trivial, trivial⟩, fun f hf => .inr (pushed_request (by simp) hf)⟩
  | removeFetch p fetchId reply =>
      exact ⟨⟨trivial, trivial, trivial⟩, fun f hf => .inr (pushed_request (by simp) hf)⟩
  | request p name params reply =>
      exact ⟨⟨trivial, trivial⟩, fun f hf => .inr (pushed_request (by simp) hf)⟩
  | destroy p =>
      refine ⟨trivial, fun f hf => .inr ?_⟩
      obtain rfl := List.mem_singleton.mp hf
      exact rfl
  | _ =>
      refine ⟨trivial, fun f hf => .inr ?_⟩
      obtain rfl := List.mem_singleton.mp hf
      trivial

theorem along_proper_complete {sh' : Shared} {id : UInt32} {result : Json} :
    Along (Proper stack) sh' (sh.complete p id result).1 := by
  unfold Shared.complete
  split
  · trivial
  · exact ⟨trivial, trivial⟩

/-- The entry taken by `handleResult`. -/
theorem pushed_complete {sh₀ : Shared} {l : List (ℕ × Event)} {id : UInt32} {result : Json}
    (hrequests : (sh₀.applyAll l).requests = sh.requests)
    (hf : f ∈ (sh.complete p id result).2) :
    Pushed sh₀ stack a (l ++ (sh.complete p id result).1) f := by
  unfold Shared.complete at hf ⊢
  rcases ht : sh.requests.take id with - | ⟨r, table⟩
  · rw [ht] at hf
    exact absurd hf List.not_mem_nil
  · rw [ht] at hf
    obtain ⟨cl, hcl, rfl⟩ := List.mem_map.mp hf
    refine ⟨id, sh₀.applyAll l, ?_, .inl ⟨l, [], rfl, rfl⟩⟩
    rw [hrequests, RequestTable.callback_of_lookup (RequestTable.take_eq_some.mp ht).1]
    simpa using hcl

theorem along_proper_callFetch {sh' : Shared} {fetchId : FetchId} {fetcher : Fetcher}
    {params : Json} {status : Int}
    (h : (sh'.peers p).tables.fetchers.lookup fetchId = some fetcher)
    (hstatus : ∃ f ∈ stack.head?, f.calls = some (p, status)) :
    Along (Proper stack) sh' (Shared.callFetch p fetchId fetcher params status).1 := by
  unfold Shared.callFetch
  rcases hcb : fetcher.callback with - | cb
  · trivial
  · exact ⟨⟨⟨fetcher, h, hcb⟩, hstatus⟩, trivial⟩

theorem pushed_callFetch {fetchId : FetchId} {fetcher : Fetcher} {params : Json} {status : Int}
    (hf : f ∈ (Shared.callFetch p fetchId fetcher params status).2) :
    Pushed sh stack a es f := by
  unfold Shared.callFetch at hf
  split at hf
  · exact absurd hf List.not_mem_nil
  · obtain rfl := List.mem_singleton.mp hf
    trivial

theorem pushed_serve {callback : Option Callback} (hf : f ∈ (Shared.serve p callback).2) :
    Pushed sh stack a es f := by
  rcases List.mem_append.mp hf with hf | hf
  · obtain ⟨cb, -, rfl⟩ := List.mem_map.mp hf
    trivial
  · obtain rfl := List.mem_singleton.mp hf
    trivial

theorem sound_handleMessage {m : Json} (htop : stack.head? = some (.receive p))
    (h : sh.handleMessage p m = some r) :
    Along (Proper stack) (sh.apply (p, .handled m)) r.1 ∧
      ∀ f ∈ r.2, Pushed sh stack a ((p, .handled m) :: r.1) f := by
  unfold Shared.handleMessage at h
  split at h
  next => cases h
  next id _ =>
    obtain rfl := Option.some.inj h
    refine ⟨along_proper_complete, fun f hf => ?_⟩
    exact pushed_complete (l := [(p, .handled m)]) rfl hf
  next htarget =>
    obtain rfl := Option.some.inj h
    refine ⟨along_proper_callFetch ?_ ⟨_, htop, rfl⟩, fun f hf => pushed_callFetch hf⟩
    rw [Shared.peers_apply_self]
    exact lookup_of_target_fetch htarget
  all_goals obtain rfl := Option.some.inj h
  · exact ⟨trivial, fun f hf => pushed_serve hf⟩
  · exact ⟨trivial, fun f hf => pushed_serve hf⟩
  · exact ⟨trivial, fun f hf => absurd hf List.not_mem_nil⟩

/-- An exception leaves `handleMessage` where the accessors throw. -/
theorem handleMessage_eq_none {m : Json} (h : sh.handleMessage p m = none) :
    ∃ e, target (sh.peers p).tables m = .error e := by
  unfold Shared.handleMessage at h
  split at h
  next e htarget => exact ⟨e, htarget⟩
  all_goals cases h

theorem sound_receive (htop : stack.head? = some (.receive p)) (h : sh.receive p = some r) :
    Sound sh stack a r := by
  unfold Shared.receive at h
  split at h
  next => cases h
  next htel =>
    obtain rfl := Option.some.inj h
    exact ⟨⟨.inl htel, trivial⟩, fun f hf => absurd hf List.not_mem_nil⟩
  next m ms htel =>
    split at h
    next hm =>
      obtain rfl := Option.some.inj h
      obtain ⟨e, he⟩ := handleMessage_eq_none hm
      refine ⟨⟨⟨ms, htel⟩, .inr ⟨m, e, List.mem_cons_self, ?_⟩, trivial⟩,
        fun f hf => absurd hf List.not_mem_nil⟩
      rw [Shared.peers_apply_self]
      exact he
    next es frames hm =>
      obtain rfl := Option.some.inj h
      obtain ⟨hproper, hpushed⟩ := sound_handleMessage htop hm
      refine ⟨⟨⟨ms, htel⟩, hproper⟩, fun f hf => .inr ?_⟩
      rcases List.mem_append.mp hf with hf | hf
      · exact hpushed f hf
      · obtain rfl := List.mem_singleton.mp hf
        trivial

theorem pushed_teardown {destroy : Bool} (hf : f ∈ Shared.teardown p destroy) :
    Pushed sh (.stop p destroy :: rest) a [(p, .disconnected)] f := by
  rcases List.mem_append.mp hf with hf | hf
  · simp only [List.mem_cons, List.not_mem_nil, or_false] at hf
    rcases hf with rfl | rfl | rfl | rfl
    · trivial
    · exact ⟨rfl, fun h => nomatch h⟩
    · exact ⟨rfl, fun h => nomatch h⟩
    · exact rfl
  · cases destroy with
    | false => exact absurd hf List.not_mem_nil
    | true =>
        obtain rfl := List.mem_singleton.mp hf
        exact ⟨rfl, fun _ => List.mem_cons_self⟩

theorem pushed_cancelFrames {ids : List UInt32} (hf : f ∈ sh.cancelFrames p ids) :
    Pushed sh stack a [(p, .cancelled)] f := by
  obtain ⟨id, -, hid⟩ := List.mem_filterMap.mp hf
  obtain ⟨cl, hcl, rfl⟩ := Option.map_eq_some_iff.mp hid
  exact ⟨id, sh, hcl, .inr ⟨⟨[], [], rfl, rfl⟩, rfl⟩⟩

theorem along_proper_answerAdd {cause serial : ℕ} {item : Option Item} {result : Json}
    (h : ∀ i, item = some i → Proper stack sh (p, .answered cause i serial result)) :
    Along (Proper stack) sh (Shared.answerAdd p cause item serial result) := by
  cases item with
  | none => trivial
  | some i => exact ⟨h i rfl, trivial⟩

/-- A turn that pushes no frame worth mentioning. -/
theorem sound_plain (hproper : Along (Proper stack) sh r.1)
    (hpushed : ∀ f ∈ r.2, ∀ es, Pushed sh stack a es f) : Sound sh stack a r :=
  ⟨hproper, fun f hf => .inr (hpushed f hf r.1)⟩

theorem sound_run {c : Choice} (h : sh.run f c = some r) :
    Sound sh (f :: rest) (.run c) r := by
  cases Shared.run_turn h with
  | sent _ => exact sound_plain ⟨trivial, trivial⟩ (by simp)
  | threw _ => exact sound_plain trivial (by simp [Pushed])
  | execute cl doc =>
      refine ⟨⟨⟨rfl, rfl, doc, List.mem_cons_self⟩, trivial⟩, fun f hf => .inr ?_⟩
      rcases List.mem_cons.mp hf with rfl | hf
      · trivial
      · rcases hcb : cl.callback with - | cb
        · simp only [hcb, List.mem_cons, List.not_mem_nil, or_false] at hf
          rcases hf with rfl | rfl
          · exact ⟨cl, doc, List.mem_cons_self, rfl, rfl, rfl⟩
          · trivial
        · simp [hcb] at hf
  | await hresult =>
      refine sound_plain (along_proper_answerAdd fun i hi => .inr ⟨rfl, ?_⟩) (by simp)
      rw [hi]
      exact List.mem_cons_self
  | invoke hcb =>
      refine sound_plain (along_proper_answerAdd fun i hi => .inl ?_) (by simp [Pushed])
      exact ⟨_, List.mem_cons_self, by rw [hcb]; rfl, rfl, hi, rfl⟩
  | receive h => exact sound_receive rfl h
  | answer _ => exact sound_plain along_proper_sent (by simp)
  | connect p => exact sound_plain ⟨trivial, trivial⟩ (by simp [Pushed])
  | config p => exact sound_plain trivial (by simp [Pushed])
  | restore _ _ => exact sound_plain along_proper_sent (by simp)
  | stop p destroy => exact ⟨⟨trivial, trivial⟩, fun f hf => .inr (pushed_teardown hf)⟩
  | enter p visited => exact sound_plain trivial (by simp [Pushed])
  | visit hlookup _ =>
      refine ⟨along_proper_callFetch hlookup ⟨_, rfl, rfl⟩, fun f hf => .inr ?_⟩
      rcases List.mem_append.mp hf with hf | hf
      · exact pushed_callFetch hf
      · obtain rfl := List.mem_singleton.mp hf
        trivial
  | clear p part => exact sound_plain ⟨List.mem_cons_self, trivial⟩ (by simp)
  | clearRequests _ =>
      exact ⟨⟨List.mem_cons_self, trivial⟩, fun f hf => .inr (pushed_cancelFrames hf)⟩
  | install _ _ _ | destroySync _ _ | fulfil _ => exact sound_plain ⟨trivial, trivial⟩ (by simp)
  | dropped _ | refused _ | done _ => exact sound_plain trivial (by simp)

/-- **What is known of every turn.** -/
theorem sound_effect (h : effect sh stack a = some r) : Sound sh stack a r := by
  cases a with
  | call c =>
      obtain ⟨-, h⟩ := Option.ite_none_right_eq_some.mp h
      obtain rfl := Option.some.inj h
      refine ⟨sound_call.proper, fun f hf => ?_⟩
      rcases List.mem_append.mp hf with hf | hf
      · exact sound_call.pushed f hf
      · exact .inl hf
  | ret =>
      simp only [effect] at h
      split at h
      · obtain rfl := Option.some.inj h
        exact ⟨trivial, fun f hf => .inl (List.mem_cons_of_mem _ hf)⟩
      · cases h
  | run c =>
      cases stack with
      | nil => cases h
      | cons f rest =>
          obtain ⟨r', hr', rfl⟩ := Option.map_eq_some_iff.mp h
          refine ⟨(sound_run hr').proper, fun f' hf => ?_⟩
          rcases List.mem_append.mp hf with hf | hf
          · exact (sound_run hr').pushed f' hf
          · exact .inl (List.mem_cons_of_mem _ hf)
  | telegram p ms =>
      obtain ⟨⟨-, htel, -⟩, h⟩ := Option.ite_none_right_eq_some.mp h
      obtain rfl := Option.some.inj h
      exact sound_plain ⟨htel, trivial⟩ (by simp [Pushed])
  | lost p =>
      obtain ⟨⟨-, htel⟩, h⟩ := Option.ite_none_right_eq_some.mp h
      obtain rfl := Option.some.inj h
      exact sound_plain ⟨htel, trivial⟩ (by simp [Pushed])
  | notifier key id =>
      simp only [effect] at h
      split at h
      · obtain ⟨p, -, rfl⟩ := Option.map_eq_some_iff.mp h
        exact ⟨along_proper_complete, fun f hf => .inr (pushed_complete (l := []) rfl hf)⟩
      · cases h

end

/-- A step, in events. -/
theorem processMachine_step_eq_some {s t : Process} {tid : ℕ} {a : Action} :
    processMachine.step s (tid, a) = some t ↔
      ∃ stack r, s.callStacks[tid]? = some stack ∧ effect s.shared stack a = some r ∧
        t = ⟨s.shared.applyAll r.1, s.callStacks.set tid r.2⟩ := by
  refine threadMachine_step_eq_some.trans ⟨?_, ?_⟩
  · rintro ⟨stack, shared, stack', hs, hturn, rfl⟩
    obtain ⟨r, hr, heq⟩ := Option.map_eq_some_iff.mp hturn
    obtain ⟨rfl, rfl⟩ := Prod.mk.inj heq
    exact ⟨stack, r, hs, hr, rfl⟩
  · rintro ⟨stack, r, hs, hr, rfl⟩
    refine ⟨stack, _, _, hs, ?_, rfl⟩
    simp [turn, hr]

/-! ### The invariant rule -/

/-- Every event of the step meets `G`. -/
def Meets (G : Process → Shared → ℕ × Event → Prop) (s : Process) (a : ℕ × Action) : Prop :=
  ∀ stack ∈ s.callStacks[a.1]?, ∀ r ∈ effect s.shared stack a.2, Along (G s) s.shared r.1

instance {G : Shared → ℕ × Event → Prop} [∀ sh pe, Decidable (G sh pe)] :
    ∀ sh es, Decidable (Along G sh es)
  | _, [] => .isTrue trivial
  | sh, e :: es =>
      have := instDecidableAlong (G := G) (sh.apply e) es
      inferInstanceAs (Decidable (_ ∧ _))

instance {G : Process → Shared → ℕ × Event → Prop} [∀ s sh pe, Decidable (G s sh pe)]
    (s : Process) (a : ℕ × Action) : Decidable (Meets G s a) :=
  inferInstanceAs (Decidable (∀ stack ∈ s.callStacks[a.1]?, ∀ r ∈ effect s.shared stack a.2, _))

/-- `I` and `J` stand a list of events, if they stand each of them. -/
theorem along_invariant {I : Shared → Prop} {K : Shared → Prop} {P : Shared → ℕ × Event → Prop}
    (hevent : ∀ sh pe, I sh → K sh → P sh pe → I (sh.apply pe) ∧ K (sh.apply pe)) :
    ∀ {es : List (ℕ × Event)} {sh : Shared}, I sh → K sh → Along P sh es →
      I (sh.applyAll es) ∧ K (sh.applyAll es) ∧ Along (fun sh pe => I sh ∧ P sh pe) sh es
  | [], _, hI, hK, _ => ⟨hI, hK, trivial⟩
  | e :: es, sh, hI, hK, ⟨he, hes⟩ => by
      obtain ⟨hI', hK'⟩ := hevent sh e hI hK he
      obtain ⟨hI'', hK'', hes'⟩ := along_invariant hevent hI' hK' hes
      exact ⟨hI'', hK'', ⟨hI, he⟩, hes'⟩

theorem Along.and {G H : Shared → ℕ × Event → Prop} :
    ∀ {es : List (ℕ × Event)} {sh : Shared}, Along G sh es → Along H sh es →
      Along (fun sh pe => G sh pe ∧ H sh pe) sh es
  | [], _, _, _ => trivial
  | _ :: _, _, hG, hH => ⟨⟨hG.1, hH.1⟩, Along.and hG.2 hH.2⟩

/-- **The invariant rule of the process**: `I` has to stand every event that
happens and meets what the guard asks of events, `J` too for the frames that
are there, and it has to hold of the frames a turn pushes. -/
theorem process_invariant {C : Process → ℕ × Action → Prop}
    {G : Process → Shared → ℕ × Event → Prop} {I : Shared → Prop} {J : Shared → Frame → Prop}
    {s t : Process} {as : List (ℕ × Action)} (h : processMachine.Run C s as t)
    (hC : ∀ s a, C s a → Meets G s a) (hI : I s.shared) (hJ : s.AllFrames J)
    (hevent : ∀ (s : Process) stack sh pe, stack ∈ s.callStacks → I sh →
      (∀ stack ∈ s.callStacks, ∀ f ∈ stack, J sh f) → Proper stack sh pe → G s sh pe →
        I (sh.apply pe) ∧ ∀ stack ∈ s.callStacks, ∀ f ∈ stack, J (sh.apply pe) f)
    (hpushed : ∀ (s : Process) stack tid a es f, stack ∈ s.callStacks → C s (tid, a) →
      Along (fun sh pe => I sh ∧ Proper stack sh pe ∧ G s sh pe) s.shared es →
      (∀ stack ∈ s.callStacks, ∀ f ∈ stack, J (s.shared.applyAll es) f) →
      Pushed s.shared stack a es f → J (s.shared.applyAll es) f) :
    I t.shared ∧ t.AllFrames J := by
  refine h.shared_invariant hI hJ ?_
  intro s tid a stack shared stack' hI hJ hCa hstack hturn
  obtain ⟨r, hr, heq⟩ := Option.map_eq_some_iff.mp hturn
  obtain ⟨rfl, rfl⟩ := Prod.mk.inj heq
  have hmem : stack ∈ s.callStacks := List.mem_of_getElem? hstack
  have hsound := sound_effect hr
  obtain ⟨hI', hK', halong⟩ := along_invariant
    (K := fun sh => ∀ stack ∈ s.callStacks, ∀ f ∈ stack, J sh f)
    (fun sh pe hI hK hP => hevent s stack sh pe hmem hI hK hP.1 hP.2) hI hJ
    (hsound.proper.and (hC s _ hCa stack hstack r hr))
  refine ⟨hI', fun stack hstack f hf _ => hK' stack hstack f hf, fun f hf => ?_⟩
  rcases hsound.pushed f hf with hold | hnew
  · exact hK' stack hmem f hold
  · exact hpushed s stack tid a r.1 f hmem hCa halong hK' hnew

end JetPeer
