/-
JetPeer/Forms.lean

The operations `Peer` and `PeerAsync` both offer, in their two forms.

Each of them is written twice, in `lib/peer.cpp` and in `lib/peerasync.cpp`:
the params are put together twice, and twice the registration is taken back
when the answer is an error.  A `Form` is all of an operation that can be seen
from outside: the entry it makes, the request it sends, and what the response
does to the registries.  Both forms are written down from their own source,
under their own name; what they are compared in is `FormsAgree`.

They agree but for one argument: `PeerAsync::addStateAsyncPrivate` marks a
state without a callback as `fetchOnly`, `Peer::addStatePrivate` does not
(`forms_agree_iff`).
-/
import JetPeer.Process

namespace JetPeer

/-! ### Forms -/

structure Form where
  /-- Made before the request is sent. -/
  entry : Option Registration := none
  method : String
  params : Json
  /-- What the response does to the registries; `none` for a request that has
  no id, and so no response. -/
  settle : Option (Json → Tables → Tables) := some fun _ t => t

namespace Form

/-- The request document. -/
def request (f : Form) (id : UInt32) : Json :=
  let doc := requestDoc f.method f.params
  if f.settle.isSome then withId doc id else doc

def registered (f : Form) (t : Tables) : Tables := f.entry.elim t t.add

/-- The registries after the answer; `meanwhile` is what others do to them
before it comes. -/
def leaves (f : Form) (meanwhile : Tables → Tables) (answer : Json) (t : Tables) : Tables :=
  (f.settle.getD fun _ t => t) answer (meanwhile (f.registered t))

end Form

/-! ### Arguments of the overloads -/

/-- `params[TIMEOUT] = timeout_s`, in the overloads that have it. -/
def timeoutParams : Option Json → Json
  | none => .null
  | some timeout => Json.null.set Word.timeout timeout

/-- `params[ACCESS][key] = groups`, unless there are none. -/
def addGroups (key : String) (groups : List String) (params : Json) : Json :=
  if groups ≠ [] then
    params.modify Word.access fun access =>
      access.set key (groups.foldl (fun v g => appendElement v (.string g)) (.array []))
  else params

/-- The three overloads of an add; `groups` are those that may set or call. -/
inductive Overload where
  | plain
  | timed (timeout : Json)
  | restricted (fetchGroups groups : List String) (timeout : Json)

/-- What an overload puts into `params` before it calls the private one. -/
def Overload.params (key : String) : Overload → Json
  | .plain => timeoutParams none
  | .timed timeout => timeoutParams (some timeout)
  | .restricted fetchGroups groups timeout =>
      addGroups key groups (addGroups Word.fetchGroups fetchGroups (timeoutParams (some timeout)))

/-! ### `lib/peer.cpp` -/

namespace Peer

def authenticate (user password : String) : Form where
  method := Word.authenticate
  params := (Json.null.set Word.user (.string user)).set Word.password (.string password)

def info : Form where
  method := Word.info
  params := .null

def config (name : String) (debug : Bool) : Form where
  method := Word.config
  params := (Json.null.set Word.name (.string name)).set Word.dbg (.bool debug)

def callMethodPrivate (path : String) (args params : Json) : Form where
  method := Word.call
  params :=
    let params := params.set Word.path (.string path)
    if args.isNull then params else params.set Word.args args

def callMethod (path : String) (args : Json) (timeout : Option Json) : Form :=
  callMethodPrivate path args (timeoutParams timeout)

def addMethodPrivate (path : String) (params : Json) (callback : Option Callback) : Form where
  entry := some (.served .method path callback)
  method := Word.add
  params := params.set Word.path (.string path)
  settle := some fun retVal t => if isError retVal then t.unregisterMethod path else t

def addMethod (path : String) (callback : Option Callback) (overload : Overload) : Form :=
  addMethodPrivate path (overload.params Word.callGroups) callback

def addStatePrivate (path : String) (value params : Json) (callback : Option Callback) : Form where
  entry := some (.served .state path callback)
  method := Word.add
  params := addStateSyncParams path value params
  settle := some fun retVal t => if isError retVal then t.unregisterState path else t

def addState (path : String) (value : Json) (callback : Option Callback) (overload : Overload) :
    Form :=
  addStatePrivate path value (overload.params Word.setGroups) callback

def get (m : Matcher) : Form where
  method := Word.get
  params := addPathInformation .null m

/-- `Peer::addFetch`; `createFetchId` has made the id. -/
def addFetch (m : Matcher) (callback : Option Callback) (fetchId : FetchId) : Form where
  entry := some (.fetch fetchId ⟨callback, m⟩)
  method := Word.fetch
  params := addPathInformation (Json.null.set Jsonrpc.id (.int fetchId)) m
  settle := some fun result t => if isError result then t.unregisterFetch fetchId else t

def setStateValuePrivate (path : String) (value params : Json) : Form where
  method := Word.set
  params := (params.set Word.path (.string path)).set Word.value value

def setStateValue (path : String) (value : Json) (timeout : Option Json) : Form :=
  setStateValuePrivate path value (timeoutParams timeout)

end Peer

/-! ### `lib/peerasync.cpp` -/

namespace PeerAsync

variable (resultCallback : Option Callback)

/-- `request.execute(*this, resultCallback)`. -/
def execute (method : String) (params : Json) : Form where
  method := method
  params := params
  settle := resultCallback.map fun _ _ t => t

def infoAsync : Form := execute resultCallback Word.info .null

def configAsync (name : String) (debug : Bool) : Form :=
  execute resultCallback Word.config (configParams name debug)

def callMethodAsyncPrivate (path : String) (args params : Json) : Form :=
  execute resultCallback Word.call <|
    let params := params.set Word.path (.string path)
    if args.isNull then params else params.set Word.args args

def callMethodAsync (path : String) (args : Json) (timeout : Option Json) : Form :=
  callMethodAsyncPrivate resultCallback path args (timeoutParams timeout)

def addMethodAsyncPrivate (path : String) (params : Json) (callback : Option Callback) : Form where
  entry := some (.served .method path callback)
  method := Word.add
  params := addMethodParams path params
  settle := resultCallback.map fun _ result => addMethodResultCb result path

def addMethodAsync (path : String) (callback : Option Callback) (overload : Overload) : Form :=
  addMethodAsyncPrivate resultCallback path (overload.params Word.callGroups) callback

def addStateAsyncPrivate (path : String) (value params : Json) (callback : Option Callback) :
    Form where
  entry := some (.served .state path callback)
  method := Word.add
  params := addStateParams path value params callback
  settle := resultCallback.map fun _ result => addStateResultCb result path

def addStateAsync (path : String) (value : Json) (callback : Option Callback)
    (overload : Overload) : Form :=
  addStateAsyncPrivate resultCallback path value (overload.params Word.setGroups) callback

def setStateValueAsyncPrivate (path : String) (value params : Json) : Form :=
  execute resultCallback Word.set ((params.set Word.path (.string path)).set Word.value value)

def setStateValueAsync (path : String) (value : Json) (timeout : Option Json) : Form :=
  setStateValueAsyncPrivate resultCallback path value (timeoutParams timeout)

def authenticateAsync (user password : String) : Form :=
  execute resultCallback Word.authenticate
    ((Json.null.set Word.user (.string user)).set Word.password (.string password))

def getAsync (m : Matcher) : Form :=
  execute resultCallback Word.get (addPathInformation .null m)

/-- `PeerAsync::addFetchAsync`; `createFetchId` has made the id. -/
def addFetchAsync (m : Matcher) (callback : Option Callback) (fetchId : FetchId) : Form where
  entry := some (.fetch fetchId ⟨callback, m⟩)
  method := Word.fetch
  params := addFetchParams m fetchId
  settle := resultCallback.map fun _ result => addFetchResultCb result fetchId

end PeerAsync

/-! ### Both forms of an operation -/

/-- An operation offered in both forms, with its arguments. -/
inductive Offered where
  | config (name : String) (debug : Bool)
  | info
  | authenticate (user password : String)
  | callMethod (path : String) (args : Json) (timeout : Option Json)
  | addMethod (path : String) (callback : Option Callback) (overload : Overload)
  | addState (path : String) (value : Json) (callback : Option Callback) (overload : Overload)
  | addFetch (m : Matcher) (callback : Option Callback)
  | get (m : Matcher)
  | setStateValue (path : String) (value : Json) (timeout : Option Json)

namespace Offered

def sync (fetchId : FetchId) : Offered → Form
  | .config name debug => Peer.config name debug
  | .info => Peer.info
  | .authenticate user password => Peer.authenticate user password
  | .callMethod path args timeout => Peer.callMethod path args timeout
  | .addMethod path callback overload => Peer.addMethod path callback overload
  | .addState path value callback overload => Peer.addState path value callback overload
  | .addFetch m callback => Peer.addFetch m callback fetchId
  | .get m => Peer.get m
  | .setStateValue path value timeout => Peer.setStateValue path value timeout

def async (fetchId : FetchId) (resultCallback : Option Callback) : Offered → Form
  | .config name debug => PeerAsync.configAsync resultCallback name debug
  | .info => PeerAsync.infoAsync resultCallback
  | .authenticate user password => PeerAsync.authenticateAsync resultCallback user password
  | .callMethod path args timeout => PeerAsync.callMethodAsync resultCallback path args timeout
  | .addMethod path callback overload =>
      PeerAsync.addMethodAsync resultCallback path callback overload
  | .addState path value callback overload =>
      PeerAsync.addStateAsync resultCallback path value callback overload
  | .addFetch m callback => PeerAsync.addFetchAsync resultCallback m callback fetchId
  | .get m => PeerAsync.getAsync resultCallback m
  | .setStateValue path value timeout =>
      PeerAsync.setStateValueAsync resultCallback path value timeout

/-- A state that cannot be set: it has no callback. -/
def AddsReadOnlyState : Offered → Prop
  | .addState _ _ none _ => True
  | _ => False

end Offered

/-- The two forms cannot be told apart by the daemon, nor afterwards by the
registries, whatever happens to them before the answer comes. -/
structure FormsAgree (op : Offered) (fetchId : FetchId) (cb : Callback) : Prop where
  method : (op.sync fetchId).method = (op.async fetchId (some cb)).method
  params : (op.sync fetchId).params = (op.async fetchId (some cb)).params
  request : ∀ id, (op.sync fetchId).request id = (op.async fetchId (some cb)).request id
  leaves : ∀ meanwhile answer t, (op.sync fetchId).leaves meanwhile answer t
    = (op.async fetchId (some cb)).leaves meanwhile answer t

section Agreement

variable {op : Offered} {fetchId : FetchId} {cb : Callback} {k : String}

/-- An overload only writes the timeout and the groups. -/
theorem isMember_overloadParams (key : String) (overload : Overload) (htimeout : k ≠ Word.timeout)
    (haccess : k ≠ Word.access) : (overload.params key).isMember k = false := by
  have hbase : ∀ timeout : Json, (Json.null.set Word.timeout timeout).isMember k = false :=
    fun timeout => Json.isMember_set_of_ne timeout htimeout
  have hgroups : ∀ key groups (params : Json), params.isMember k = false →
      (addGroups key groups params).isMember k = false := by
    intro key groups params hparams
    unfold addGroups
    split_ifs
    · exact (Json.isMember_set_of_ne _ haccess).trans hparams
    · exact hparams
  cases overload with
  | plain => rfl
  | timed timeout => exact hbase timeout
  | restricted fetchGroups groups timeout =>
      exact hgroups _ _ _ (hgroups _ _ _ (hbase timeout))

/-- The one difference, as a document. -/
theorem params_addStateAsync (path : String) (value : Json) (overload : Overload) :
    (PeerAsync.addStateAsync (some cb) path value none overload).params
      = (Peer.addState path value none overload).params.set Word.fetchOnly (.bool true) := rfl

/-- What the daemon is told of a state by `Peer` never says `fetchOnly`. -/
theorem isMember_fetchOnly_addState (path : String) (value : Json) (callback : Option Callback)
    (overload : Overload) :
    (Peer.addState path value callback overload).params.isMember Word.fetchOnly = false := by
  show ((((overload.params Word.setGroups).set _ _).set _ _).isMember _) = false
  rw [Json.isMember_set_of_ne _ (by decide), Json.isMember_set_of_ne _ (by decide)]
  exact isMember_overloadParams _ _ (by decide) (by decide)

/-- The registries do not tell the forms apart, a read only state or not. -/
theorem leaves_agree (op : Offered) (fetchId : FetchId) (cb : Callback)
    (meanwhile : Tables → Tables) (answer : Json) (t : Tables) :
    (op.sync fetchId).leaves meanwhile answer t
      = (op.async fetchId (some cb)).leaves meanwhile answer t := by
  cases op <;> rfl

theorem forms_agree (h : ¬ op.AddsReadOnlyState) : FormsAgree op fetchId cb := by
  have hparams : (op.sync fetchId).params = (op.async fetchId (some cb)).params := by
    cases op with
    | addState path value callback overload =>
        rcases callback with - | callback
        · exact absurd trivial h
        · rfl
    | _ => rfl
  have hmethod : (op.sync fetchId).method = (op.async fetchId (some cb)).method := by
    cases op <;> rfl
  have hsettle : ((op.sync fetchId).settle.isSome = true)
      ∧ ((op.async fetchId (some cb)).settle.isSome = true) := by
    cases op <;> exact ⟨rfl, rfl⟩
  refine ⟨hmethod, hparams, fun id => ?_, leaves_agree op fetchId cb⟩
  simp only [Form.request, hsettle.1, hsettle.2, if_true, hmethod, hparams]

/-- **The two forms of an operation agree exactly if it does not add a state
without a callback.** -/
theorem forms_agree_iff (op : Offered) (fetchId : FetchId) (cb : Callback) :
    FormsAgree op fetchId cb ↔ ¬ op.AddsReadOnlyState := by
  refine ⟨fun h hread => ?_, forms_agree⟩
  cases op with
  | addState path value callback overload =>
      rcases callback with - | callback
      · have hmember := congrArg (Json.isMember · Word.fetchOnly) h.params
        have hsync := isMember_fetchOnly_addState path value none overload
        -- the asynchronous form has the member, the synchronous one has not
        exact absurd (hsync.symm.trans (hmember.trans (Json.isMember_set_self _ _ _))) (by decide)
      · exact hread
  | _ => exact hread

/-- A read only state: one form says so, the other does not. -/
theorem read_only_forms_differ :
    ¬ ∀ (op : Offered) (fetchId : FetchId) (cb : Callback), FormsAgree op fetchId cb := by
  intro h
  have hparams := (h (.addState "a" (.int 1) none .plain) 1 0).params
  have hmember := congrArg (Json.isMember · Word.fetchOnly) hparams
  exact absurd hmember (by decide)

end Agreement

/-! ### In the process of peers -/

namespace Offered

/-- The form a caller gets with what it wants of the result. -/
def form (op : Offered) (reply : Reply) (fetchId : FetchId) : Form :=
  match reply with
  | .ignore => op.async fetchId none
  | .callback cb => op.async fetchId (some cb)
  | .await => op.sync fetchId

/-- The call of the process that stands for an operation. -/
def call (p : ℕ) (reply : Reply) (op : Offered) : Call :=
  match op with
  | .addMethod path callback overload =>
      .add p .method path .null (overload.params Word.callGroups) callback reply
  | .addState path value callback overload =>
      .add p .state path value (overload.params Word.setGroups) callback reply
  | .addFetch m callback => .addFetch p m callback reply
  | _ => .request p (op.form reply 0).method (op.form reply 0).params reply

end Offered

/-- **A call does what its form says**: it makes the entry and sends the
request, with the item to be rolled back. -/
theorem call_eq_form (sh : Shared) (p : ℕ) (op : Offered) (reply : Reply) :
    sh.call (op.call p reply) =
      let f := op.form reply sh.nextFetchId
      let e := sh.request p (requestDoc f.method f.params) (f.entry.map Registration.item) reply
      (f.entry.toList.map (fun r => (p, .registered r sh.issuers.length f.params)) ++ e.1,
        e.2) := by
  cases reply <;> cases op <;> rfl

/-- The process rolls an entry back as its form does. -/
theorem leaves_eq_answered {op : Offered} {reply : Reply} {fetchId : FetchId} {r : Registration}
    (h : (op.form reply fetchId).entry = some r) (hreply : reply ≠ .ignore) (cause serial : ℕ)
    (meanwhile : Tables → Tables) (answer params : Json) (t : Tables) :
    (op.form reply fetchId).leaves meanwhile answer t =
      (Event.answered cause r.item serial answer).onTables
        (meanwhile ((Event.registered r serial params).onTables t)) := by
  cases reply with
  | ignore => exact absurd rfl hreply
  | callback cb => cases op <;> cases h <;> rfl
  | await => cases op <;> cases h <;> rfl

end JetPeer
