/-
JetPeer/Registration.lean

The three registries of a peer and the operations that change them:
`registerState`, `unregisterState` and their siblings, the result callbacks
that roll a registration back, and the documents of the requests that go with
them.

States and methods are registered in the same way under two names.  `Kind`
says which, so that what holds for both is said once; an `Item` is a key of
any of the three.
-/
import JetPeer.Requests

namespace JetPeer

/-! ### Registering -/

namespace Tables

def registerFetch (t : Tables) (fetchId : FetchId) (fetcher : Fetcher) : Tables :=
  { t with fetchers := t.fetchers.insert fetchId fetcher }

def registerMethod (t : Tables) (path : String) (callback : Option Callback) : Tables :=
  { t with methodCallbacks := t.methodCallbacks.insert path callback }

def registerState (t : Tables) (path : String) (callback : Option Callback) : Tables :=
  { t with stateCallbacks := t.stateCallbacks.insert path callback }

def unregisterFetch (t : Tables) (fetchId : FetchId) : Tables :=
  { t with fetchers := t.fetchers.erase fetchId }

def unregisterMethod (t : Tables) (path : String) : Tables :=
  { t with methodCallbacks := t.methodCallbacks.erase path }

def unregisterState (t : Tables) (path : String) : Tables :=
  { t with stateCallbacks := t.stateCallbacks.erase path }

end Tables

/-- What a peer serves under a path. -/
inductive Kind where
  | state
  | method
  deriving DecidableEq

namespace Tables

def register (t : Tables) : Kind → String → Option Callback → Tables
  | .state => t.registerState
  | .method => t.registerMethod

def unregister (t : Tables) : Kind → String → Tables
  | .state => t.unregisterState
  | .method => t.unregisterMethod

/-- `path` is registered. -/
def Serves (t : Tables) : Kind → String → Prop
  | .state, path => path ∈ t.stateCallbacks
  | .method, path => path ∈ t.methodCallbacks

instance (t : Tables) (k : Kind) (path : String) : Decidable (t.Serves k path) := by
  cases k <;> dsimp only [Serves] <;> infer_instance

variable {t : Tables} {k k' : Kind} {path path' : String}

theorem serves_register (callback : Option Callback) :
    (t.register k path callback).Serves k' path' ↔ (k' = k ∧ path' = path) ∨ t.Serves k' path' := by
  cases k <;> cases k' <;> simp [register, registerState, registerMethod, Serves]

theorem serves_unregister :
    (t.unregister k path).Serves k' path' ↔ ¬ (k' = k ∧ path' = path) ∧ t.Serves k' path' := by
  cases k <;> cases k' <;> simp [unregister, unregisterState, unregisterMethod, Serves]

end Tables

/-! ### Rolling back -/

def addMethodResultCb (result : Json) (path : String) (t : Tables) : Tables :=
  if isError result then t.unregisterMethod path else t

def addStateResultCb (result : Json) (path : String) (t : Tables) : Tables :=
  if isError result then t.unregisterState path else t

def addFetchResultCb (result : Json) (fetchId : FetchId) (t : Tables) : Tables :=
  if isError result then t.unregisterFetch fetchId else t

def addResultCb (result : Json) : Kind → String → Tables → Tables
  | .state => addStateResultCb result
  | .method => addMethodResultCb result

theorem addResultCb_eq (result : Json) (k : Kind) (path : String) (t : Tables) :
    addResultCb result k path t = if isError result then t.unregister k path else t := by
  cases k <;> rfl

/-! ### Items of all three registries -/

/-- A key of one of the three registries. -/
inductive Item where
  | served (kind : Kind) (path : String)
  | fetch (fetchId : FetchId)
  deriving DecidableEq

/-- An item with what is registered under it. -/
inductive Registration where
  | served (kind : Kind) (path : String) (callback : Option Callback)
  | fetch (fetchId : FetchId) (fetcher : Fetcher)

def Registration.item : Registration → Item
  | .served kind path _ => .served kind path
  | .fetch fetchId _ => .fetch fetchId

/-- A registry as a whole. -/
inductive Part where
  | states
  | methods
  | fetchers
  deriving DecidableEq

/-- The registry an item belongs to. -/
def Item.part : Item → Part
  | .served .state _ => .states
  | .served .method _ => .methods
  | .fetch _ => .fetchers

namespace Tables

def add (t : Tables) : Registration → Tables
  | .served kind path callback => t.register kind path callback
  | .fetch fetchId fetcher => t.registerFetch fetchId fetcher

def discard (t : Tables) : Item → Tables
  | .served kind path => t.unregister kind path
  | .fetch fetchId => t.unregisterFetch fetchId

def clear (t : Tables) : Part → Tables
  | .states => { t with stateCallbacks := ∅ }
  | .methods => { t with methodCallbacks := ∅ }
  | .fetchers => { t with fetchers := ∅ }

def Has (t : Tables) : Item → Prop
  | .served kind path => t.Serves kind path
  | .fetch fetchId => fetchId ∈ t.fetchers

instance (t : Tables) : ∀ i, Decidable (t.Has i)
  | .served kind path => inferInstanceAs (Decidable (t.Serves kind path))
  | .fetch fetchId => inferInstanceAs (Decidable (fetchId ∈ t.fetchers))

/-- The result callback of an add that rolls the item back. -/
def rollBack (result : Json) : Item → Tables → Tables
  | .served kind path => addResultCb result kind path
  | .fetch fetchId => addFetchResultCb result fetchId

theorem rollBack_eq (result : Json) (item : Item) (t : Tables) :
    rollBack result item t = if isError result then t.discard item else t := by
  cases item with
  | served kind path => exact addResultCb_eq result kind path t
  | fetch fetchId => rfl

variable {t : Tables} {i : Item}

theorem has_add {r : Registration} : (t.add r).Has i ↔ i = r.item ∨ t.Has i := by
  rcases r with ⟨k, p, cb⟩ | ⟨n, f⟩ <;> rcases i with ⟨k', p'⟩ | n'
  · exact (serves_register cb).trans (by simp [Registration.item, Has])
  · cases k <;> simp [Registration.item, Has, add, register, registerState, registerMethod]
  · cases k' <;> simp [Registration.item, Has, add, Serves, registerFetch]
  · simp [Registration.item, Has, add, registerFetch]

theorem has_discard {j : Item} : (t.discard j).Has i ↔ i ≠ j ∧ t.Has i := by
  rcases j with ⟨k, p⟩ | n <;> rcases i with ⟨k', p'⟩ | n'
  · exact serves_unregister.trans (by simp [Has])
  · cases k <;> simp [Has, discard, unregister, unregisterState, unregisterMethod]
  · cases k' <;> simp [Has, discard, Serves, unregisterFetch]
  · simp [Has, discard, unregisterFetch]

theorem has_clear {part : Part} : (t.clear part).Has i ↔ i.part ≠ part ∧ t.Has i := by
  cases part <;> rcases i with ⟨k, p⟩ | n <;> try cases k
  all_goals simp [clear, Has, Item.part, Serves]

end Tables

/-! ### Request documents -/

/-- `addMethodAsyncPrivate`, with what the overload put into `params`. -/
def addMethodParams (path : String) (params : Json) : Json := params.set Word.path (.string path)

/-- `addStateAsyncPrivate`, with what the overload put into `params`. -/
def addStateParams (path : String) (value params : Json) (callback : Option Callback) : Json :=
  let params := (params.set Word.path (.string path)).set Word.value value
  if callback.isNone then params.set Word.fetchOnly (.bool true) else params

/-- `Peer::addStatePrivate`, with what the overload put into `params`.  Whether
there is a callback is not said. -/
def addStateSyncParams (path : String) (value params : Json) : Json :=
  (params.set Word.path (.string path)).set Word.value value

/-- `removeMethodAsync`, `removeStateAsync`. -/
def removeParams (path : String) : Json := Json.null.set Word.path (.string path)

def configParams (name : String) (debug : Bool) : Json :=
  (Json.null.set Word.name (.string name)).set Word.dbg (.bool debug)

/-- `params[PATH][CONTAINSALLOF].append(iter)`. -/
def appendElement (v x : Json) : Json :=
  match v with
  | .array xs => .array (xs ++ [x])
  | _ => .array [x]

/-- One non-empty string of a matcher. -/
def addPathString (key s : String) (params : Json) : Json :=
  if s ≠ "" then params.modify Word.path fun p => p.set key (.string s) else params

/-- `addPathInformation`. -/
def addPathInformation (params : Json) (m : Matcher) : Json :=
  let params := addPathString Word.contains m.contains params
  let params := addPathString Word.startsWith m.startsWith params
  let params := addPathString Word.endsWith m.endsWith params
  let params := addPathString Word.equals m.equals params
  let params := addPathString Word.equalsNot m.equalsNot params
  let params := m.containsAllOf.foldl (fun params s =>
    params.modify Word.path fun p =>
      p.modify Word.containsAllOf fun v => appendElement v (.string s)) params
  if m.caseInsensitive then
    params.modify Word.path fun p => p.set Word.caseInsensitive (.bool true)
  else params

/-- The params `addFetchAsync` builds. -/
def addFetchParams (m : Matcher) (fetchId : FetchId) : Json :=
  addPathInformation (Json.null.set Jsonrpc.id (.int fetchId)) m

/-- The params `restoreFetch` builds. -/
def restoreFetchParams (m : Matcher) (fetchId : FetchId) : Json :=
  addPathInformation (Json.null.set Jsonrpc.id (.int fetchId)) m

/-- The params `removeFetchAsync` builds. -/
def removeFetchParams (fetchId : FetchId) : Json := Json.null.set Jsonrpc.id (.int fetchId)

/-- The params of an add; only a state has a value.  The synchronous form and
the asynchronous one build those of a state on their own. -/
def addParams (synchronous : Bool) (path : String) (value params : Json)
    (callback : Option Callback) : Kind → Json
  | .state =>
      if synchronous then addStateSyncParams path value params
      else addStateParams path value params callback
  | .method => addMethodParams path params

/-- The two builders agree on every matcher. -/
theorem restoreFetchParams_eq (m : Matcher) (fetchId : FetchId) :
    restoreFetchParams m fetchId = addFetchParams m fetchId := rfl

end JetPeer
