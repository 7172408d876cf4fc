/-
JetPeer/Cache.lean

`tool/cache.cpp`: a map that follows the states a matcher selects.

The daemon holds the matching states.  For a fetch it sends an add for each of
them, and from then on every add, change and remove, in order; nothing comes
from it before the fetch has arrived, and nothing once the connection is lost.
`PeerAsync::stop` calls the callback with a negative status, `start` sends the
fetch again, with the same id and the same matcher (`restoreFetchParams_eq`).

`cache::fetchCb` writes one entry for each notification, and on a lost
connection it only writes to the log.  So the cache is a replica of what the
daemon holds (`step_view`), and it is missing the one thing a replica
needs: what went away unseen stays in it.  It mirrors the daemon in all runs
in which nothing went away unseen (`cache_mirrors`), and in no others
(`restored_mirrors_iff`).

The callbacks of `setCbs` are called with the entry already written, and the
map is locked, so they are left out.
-/
import JetPeer.Matchers
import JetPeer.Notifications
import JetPeer.Replica

namespace JetPeer

open Maps Replicas Runs

/-! ### `cache` -/

/-- `m_cache`. -/
abbrev Cache := AList fun _ : String => Json

namespace Cache

def getEntry (c : Cache) (path : String) : Json := (c.lookup path).getD .null

/-- What `fetchCb` does with the three words read from the params. -/
def onEvent (c : Cache) (event path : String) (value : Json) : Cache :=
  if event = Word.change then c.insert path value
  else if event = Word.add then c.insert path value
  else if event = Word.remove then c.erase path
  else c

def fetchCb (c : Cache) (params : Json) (status : Int) : Except LogicError Cache :=
  if status < 0 then .ok c
  else
    match params with
    | .object ms =>
        (((Json.object ms).at Word.event).bind Json.asString).bind fun event =>
          (((Json.object ms).at Word.path).bind Json.asString).bind fun path =>
            ((Json.object ms).at Word.value).map fun value => c.onEvent event path value
    | _ => .ok c

/-- The map after a call; what the callback throws is caught by its caller. -/
def after (c : Cache) (params : Json) (status : Int) : Cache :=
  match c.fetchCb params status with
  | .ok c => c
  | .error _ => c

/-- A lost connection changes nothing. -/
theorem after_lost (c : Cache) (params : Json) {status : Int} (h : status < 0) :
    c.after params status = c := by
  have hcb : c.fetchCb params status = .ok c := if_pos h
  rw [after, hcb]

end Cache

/-! ### Notifications -/

inductive CacheEvent where
  | add
  | change
  | remove
  deriving DecidableEq

def CacheEvent.word : CacheEvent → String
  | .add => Word.add
  | .change => Word.change
  | .remove => Word.remove

/-- What the daemon says of a state. -/
structure Notice where
  event : CacheEvent
  path : String
  value : Json

namespace Notice

def params (n : Notice) : Json :=
  ((Json.null.set Word.path (.string n.path)).set Word.event (.string n.event.word)).set
    Word.value n.value

/-- The telegram: its method is the id of the fetch. -/
def message (fetchId : FetchId) (n : Notice) : Json :=
  (Json.null.set Jsonrpc.method (.int fetchId)).set Jsonrpc.params n.params

/-- What it means for a replica. -/
def update (n : Notice) : Update String Json :=
  match n.event with
  | .remove => .delete n.path
  | _ => .put n.path n.value

end Notice

section Notices

variable {n : Notice} {fetchId : FetchId}

/-- `handleMessage` hands the params to the callback of the fetch. -/
theorem target_message {t : Tables} {f : Fetcher} (hid : IsInt fetchId)
    (hf : t.fetchers.lookup fetchId = some f) :
    target t (n.message fetchId) = .ok (.fetch fetchId f n.params) := by
  have hmethod : (n.message fetchId).member Jsonrpc.method = .int fetchId := by
    rw [Notice.message, Json.member_set_of_ne _ (by decide), Json.member_set_self]
  have hparams : (n.message fetchId).member Jsonrpc.params = n.params := Json.member_set_self _ _ _
  have hnotification : notification (n.message fetchId) = some (fetchId, n.params) := by
    obtain ⟨ms, hms⟩ := Json.set_eq_object (Json.null.set Jsonrpc.method (.int fetchId))
      Jsonrpc.params n.params
    rw [Notice.message, hms] at hmethod hparams ⊢
    simp only [notification, hmethod, hparams]
    exact if_pos hid
  rw [target_notification hnotification, hf]

/-- The cache reads of a notification what the daemon has written. -/
theorem fetchCb_params (c : Cache) {status : Int} (h : ¬ status < 0) :
    c.fetchCb n.params status = .ok (c.onEvent n.event.word n.path n.value) := by
  have hvalue : n.params.member Word.value = n.value := Json.member_set_self _ _ _
  have hevent : n.params.member Word.event = .string n.event.word := by
    rw [Notice.params, Json.member_set_of_ne _ (by decide), Json.member_set_self]
  have hpath : n.params.member Word.path = .string n.path := by
    rw [Notice.params, Json.member_set_of_ne _ (by decide), Json.member_set_of_ne _ (by decide),
      Json.member_set_self]
  obtain ⟨ms, hms⟩ : ∃ ms, n.params = .object ms := Json.set_eq_object _ _ _
  have hmembers : HasMembers (Json.object ms) := .inr ⟨ms, rfl⟩
  rw [hms] at hvalue hevent hpath ⊢
  rw [Cache.fetchCb, if_neg h]
  simp only [hmembers.at_eq, hvalue, hevent, hpath]
  rfl

/-- **One notification is one update.** -/
theorem valuesOf_after (c : Cache) {status : Int} (h : ¬ status < 0) :
    valuesOf (c.after n.params status) = n.update.apply (valuesOf c) := by
  rw [Cache.after, fetchCb_params c h]
  obtain ⟨event, path, value⟩ := n
  cases event with
  | add => exact valuesOf_insert c path value
  | change => exact valuesOf_insert c path value
  | remove => exact valuesOf_erase c path

/-- The map after some notifications, in the order of the list. -/
def Cache.afterAll (c : Cache) (ns : List Notice) : Cache :=
  ns.foldl (fun (c : Cache) n => c.after n.params 0) c

/-- Many notifications are as many updates. -/
theorem valuesOf_afterAll (c : Cache) (ns : List Notice) :
    valuesOf (c.afterAll ns) = replay (ns.map Notice.update) (valuesOf c) := by
  induction ns generalizing c with
  | nil => rfl
  | cons n ns ih =>
      show valuesOf ((c.after n.params 0).afterAll ns) = _
      rw [ih, valuesOf_after c (by decide)]
      rfl

end Notices

/-! ### The daemon, the connection and the cache -/

inductive Link where
  | down
  /-- Connected; the fetch is under way. -/
  | fetching
  /-- The fetch is at the daemon; what it has sent and the cache has not yet
  seen. -/
  | up (inflight : List Notice)

def Link.send (n : Notice) : Link → Link
  | .up ns => .up (ns ++ [n])
  | link => link

structure Caching where
  /-- The matching states of the daemon. -/
  held : AList fun _ : String => Json := ∅
  link : Link := .down
  cache : Cache := ∅

inductive CacheAction where
  /-- A matching state is added or changed. -/
  | write (path : String) (value : Json)
  | remove (path : String)
  /-- `addFetchAsync`, and `resume` afterwards. -/
  | connect
  /-- The fetch arrives; the daemon goes through its states in this order. -/
  | fetched (order : List String)
  /-- `fetchCb` is called with the next notification. -/
  | notify
  | lose

namespace Caching

/-- The adds a fetch is answered with. -/
def snapshot (s : Caching) (order : List String) : List Notice :=
  order.filterMap fun path => (s.held.lookup path).map fun value => ⟨.add, path, value⟩

def step (s : Caching) : CacheAction → Option Caching
  | .write path value =>
      let event := if path ∈ s.held then CacheEvent.change else .add
      some { s with
        held := s.held.insert path value
        link := s.link.send ⟨event, path, value⟩ }
  | .remove path =>
      (s.held.lookup path).map fun value =>
        { s with
          held := s.held.erase path
          link := s.link.send ⟨.remove, path, value⟩ }
  | .connect =>
      match s.link with
      | .down => some { s with link := .fetching }
      | _ => none
  | .fetched order =>
      match s.link with
      | .fetching =>
          if order.Perm s.held.keys then some { s with link := .up (s.snapshot order) } else none
      | _ => none
  | .notify =>
      match s.link with
      | .up (n :: ns) => some { s with link := .up ns, cache := s.cache.after n.params 0 }
      | _ => none
  | .lose =>
      match s.link with
      | .down => none
      | _ => some { s with link := .down, cache := s.cache.after .null (-1) }

def machine : Machine Caching CacheAction := ⟨step⟩

/-- When a fetch arrives, whatever the cache has is still there. -/
def StillHeld (s : Caching) : CacheAction → Prop
  | .fetched _ => ∀ path ∈ s.cache.keys, path ∈ s.held
  | _ => True

instance (s : Caching) : ∀ a, Decidable (s.StillHeld a)
  | .fetched _ => inferInstanceAs (Decidable (∀ path ∈ s.cache.keys, path ∈ s.held))
  | .write _ _ | .remove _ | .connect | .notify | .lose => isTrue trivial

/-- The cache has the paths and the values of the daemon, and says so. -/
structure Mirrors (c : Cache) (held : AList fun _ : String => Json) : Prop where
  entries : ∀ path, c.lookup path = held.lookup path
  getEntry : ∀ path value, held.lookup path = some value → c.getEntry path = value

/-- The cache as a replica of the daemon. -/
def view (s : Caching) : Replica String Json where
  primary := valuesOf s.held
  copy := valuesOf s.cache
  pending :=
    match s.link with
    | .up ns => some (ns.map Notice.update)
    | _ => none

/-! ### A replica of the daemon -/

variable {s t : Caching} {a : CacheAction}

theorem pending_send (n : Notice) (link : Link) (p c : String → Option Json) :
    Step ⟨p, c, (⟨s.held, link, s.cache⟩ : Caching).view.pending⟩
      ⟨n.update.apply p, c, (⟨s.held, link.send n, s.cache⟩ : Caching).view.pending⟩ := by
  have hpending : (⟨s.held, link.send n, s.cache⟩ : Caching).view.pending
      = (⟨s.held, link, s.cache⟩ : Caching).view.pending.map (· ++ [n.update]) := by
    cases link with
    | up ns => exact congrArg some (List.map_append ..)
    | _ => rfl
  rw [hpending]
  exact Step.change n.update

/-- The adds are a snapshot of what the daemon holds. -/
theorem snapshot_view {order : List String} (h : order.Perm s.held.keys) :
    Snapshot s.view.primary ((s.snapshot order).map Notice.update) where
  sound := by
    intro u hu
    obtain ⟨n, hn, rfl⟩ := List.mem_map.mp hu
    obtain ⟨path, -, hpath⟩ := List.mem_filterMap.mp hn
    obtain ⟨value, hvalue, rfl⟩ := Option.map_eq_some_iff.mp hpath
    exact ⟨path, value, rfl, hvalue⟩
  complete := by
    intro path value hvalue
    have hmem : path ∈ s.held := mem_of_lookup hvalue
    refine List.mem_map.mpr ⟨⟨.add, path, value⟩, List.mem_filterMap.mpr ⟨path, ?_, ?_⟩, rfl⟩
    · exact h.mem_iff.mpr (AList.mem_keys.mpr hmem)
    · exact Option.map_eq_some_iff.mpr ⟨value, hvalue, rfl⟩

theorem covers_iff {order : List String} :
    Covers s.view.primary s.view.copy ↔ s.StillHeld (.fetched order) := by
  constructor
  · intro h path hpath
    by_contra hheld
    have hnone : s.cache.lookup path = none := h path (AList.lookup_eq_none.mpr hheld)
    exact AList.lookup_eq_none.mp hnone (AList.mem_keys.mp hpath)
  · intro h path hpath
    refine AList.lookup_eq_none.mpr fun hcache => ?_
    exact AList.lookup_eq_none.mp hpath (h path (AList.mem_keys.mpr hcache))

/-- **The cache is a replica**: what happens is a step of the replica, or
nothing at all. -/
theorem step_view (h : s.step a = some t) : Step s.view t.view ∨ t.view = s.view := by
  obtain ⟨held, link, cache⟩ := s
  cases a with
  | write path value =>
      obtain rfl := Option.some.inj h
      left
      have hupdate : ∀ event, event ≠ CacheEvent.remove →
          (⟨event, path, value⟩ : Notice).update = .put path value := by
        intro event hevent
        cases event with
        | remove => exact absurd rfl hevent
        | _ => rfl
      have hheld : (valuesOf (held.insert path value)) =
          (⟨if path ∈ held then .change else .add, path, value⟩ : Notice).update.apply
            (valuesOf held) := by
        rw [valuesOf_insert, hupdate _ (by split_ifs <;> decide)]
        rfl
      show Step ⟨valuesOf held, valuesOf cache, _⟩ ⟨valuesOf (held.insert path value), _, _⟩
      rw [hheld]
      exact pending_send (s := ⟨held, link, cache⟩) _ link _ _
  | remove path =>
      obtain ⟨value, -, rfl⟩ := Option.map_eq_some_iff.mp h
      left
      show Step ⟨valuesOf held, valuesOf cache, _⟩ ⟨valuesOf (held.erase path), _, _⟩
      rw [valuesOf_erase]
      exact pending_send (s := ⟨held, link, cache⟩) ⟨.remove, path, value⟩ link _ _
  | connect =>
      cases link with
      | down =>
          obtain rfl := Option.some.inj h
          exact .inr rfl
      | _ => cases h
  | fetched order =>
      cases link with
      | fetching =>
          obtain ⟨horder, h⟩ := Option.ite_none_right_eq_some.mp h
          obtain rfl := Option.some.inj h
          exact .inl (Step.subscribe (snapshot_view (s := ⟨held, .fetching, cache⟩) horder))
      | _ => cases h
  | notify =>
      cases link with
      | up ns =>
          cases ns with
          | nil => cases h
          | cons n ns =>
              obtain rfl := Option.some.inj h
              left
              show Step ⟨_, _, _⟩ ⟨_, valuesOf (cache.after n.params 0), _⟩
              rw [valuesOf_after cache (by decide)]
              exact Step.receive
      | _ => cases h
  | lose =>
      have hlost : cache.after .null (-1) = cache := cache.after_lost _ (by decide)
      cases link with
      | down => cases h
      | _ =>
          obtain rfl := Option.some.inj h
          left
          show Step ⟨_, _, _⟩ ⟨_, valuesOf (cache.after .null (-1)), none⟩
          rw [hlost]
          exact Step.lose

/-- A subscription only begins with the arrival of a fetch. -/
theorem fetched_of_subscribed (h : s.step a = some t) (hs : s.view.pending = none)
    (ht : t.view.pending ≠ none) : ∃ order, a = .fetched order := by
  obtain ⟨held, link, cache⟩ := s
  cases a with
  | fetched order => exact ⟨order, rfl⟩
  | write path value =>
      obtain rfl := Option.some.inj h
      cases link with
      | up ns => cases hs
      | _ => exact absurd rfl ht
  | remove path =>
      obtain ⟨value, -, rfl⟩ := Option.map_eq_some_iff.mp h
      cases link with
      | up ns => cases hs
      | _ => exact absurd rfl ht
  | connect =>
      cases link with
      | down =>
          obtain rfl := Option.some.inj h
          exact absurd rfl ht
      | _ => cases h
  | notify =>
      cases link with
      | up ns => cases hs
      | _ => cases h
  | lose =>
      cases link with
      | up ns => cases hs
      | down => cases h
      | fetching =>
          obtain rfl := Option.some.inj h
          exact absurd rfl ht

theorem inStep_step (h : s.step a = some t) (hheld : s.StillHeld a) (hi : InStep s.view) :
    InStep t.view := by
  rcases step_view h with hstep | heq
  · refine hstep.inStep hi fun hs ht => ?_
    obtain ⟨order, rfl⟩ := fetched_of_subscribed h hs ht
    exact covers_iff.mpr hheld
  · rw [heq]
    exact hi

theorem inStep_run {as : List CacheAction} (h : machine.Run StillHeld {} as s) :
    InStep s.view := by
  refine h.invariant (I := fun s => InStep s.view) ?_ fun s a t hi hheld hstep =>
    inStep_step hstep hheld hi
  intro us hus
  cases hus

theorem mirrors_iff {c : Cache} {held : AList fun _ : String => Json} :
    Mirrors c held ↔ valuesOf c = valuesOf held := by
  constructor
  · intro h
    funext path
    exact h.entries path
  · intro h
    have hentries : ∀ path, c.lookup path = held.lookup path := fun path => congrFun h path
    refine ⟨hentries, fun path value hvalue => ?_⟩
    rw [Cache.getEntry, hentries, hvalue]
    rfl

end Caching

open Caching

/-- **The cache mirrors the daemon**, whenever the fetch is there and all
notifications have been seen, in every run in which a fetch finds what the
cache has. -/
theorem cache_mirrors {as : List CacheAction} {s : Caching}
    (h : machine.Run StillHeld {} as s) (hdrained : s.link = .up []) :
    Mirrors s.cache s.held := by
  have hpending : s.view.pending = some [] := by
    unfold view
    rw [hdrained]
    rfl
  exact mirrors_iff.mpr ((inStep_run h).agree hpending)

/-- **Nothing else can go wrong**: once the adds of a fetch have been seen, the
cache mirrors the daemon if and only if what it had was still held. -/
theorem restored_mirrors_iff {s t : Caching} {order : List String} {ns : List Notice}
    (h : s.step (.fetched order) = some t) (hns : t.link = .up ns) :
    Mirrors (t.cache.afterAll ns) t.held ↔ s.StillHeld (.fetched order) := by
  obtain ⟨held, link, cache⟩ := s
  cases link with
  | fetching =>
      obtain ⟨horder, h⟩ := Option.ite_none_right_eq_some.mp h
      obtain rfl := Option.some.inj h
      cases hns
      rw [mirrors_iff, valuesOf_afterAll, ← covers_iff]
      exact replay_snapshot_iff (snapshot_view (s := ⟨held, .fetching, cache⟩) horder)
  | _ => cases h

/-! ### A state that comes back, and one that does not -/

/-- The connection is lost; in the meantime the state has another value. -/
def changedUnseen : List CacheAction :=
  [.write "a" (.int 1), .connect, .fetched ["a"], .notify, .lose, .write "a" (.int 2), .connect,
    .fetched ["a"], .notify]

theorem cache_mirrors_changedUnseen :
    ∃ s, machine.Run StillHeld {} changedUnseen s ∧ s.cache.getEntry "a" = .int 2 := by
  obtain ⟨s, hs⟩ : ∃ s, machine.evalIn StillHeld {} changedUnseen = some s := ⟨_, rfl⟩
  have hrun := Machine.Run.of_evalIn hs
  have hlink : s.link = .up [] ∧ s.held.lookup "a" = some (.int 2) := by
    cases hs
    exact ⟨rfl, rfl⟩
  exact ⟨s, hrun, (cache_mirrors hrun hlink.1).getEntry "a" _ hlink.2⟩

/-- The same, but the state is gone. -/
def removedUnseen : List CacheAction :=
  [.write "a" (.int 1), .connect, .fetched ["a"], .notify, .lose, .remove "a", .connect,
    .fetched []]

/-- A state removed while the connection is lost stays in the cache. -/
theorem removed_state_stays :
    ¬ ∀ (as : List CacheAction) (s : Caching), machine.Run Machine.Always {} as s →
      s.link = .up [] → Mirrors s.cache s.held := by
  intro h
  obtain ⟨s, hs⟩ : ∃ s, machine.eval {} removedUnseen = some s := ⟨_, rfl⟩
  have hmirrors := h _ s (Machine.Run.of_eval hs) (by cases hs; rfl)
  have hentry := hmirrors.entries "a"
  cases hs
  cases hentry

end JetPeer
