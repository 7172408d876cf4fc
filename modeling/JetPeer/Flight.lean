/-
JetPeer/Flight.lean

What is in flight in a network, and what it means to a client.

To one client the network is a relay (`Network.view`): the value of the owner
is the source, the daemon the hub, the cache the copy, and the responses to
this client's own requests are acknowledgements.

A response carries an id only, first one of the daemon's and then one of the
client's, and what it acknowledges is found under these.  So neither may be
used twice at a time: that is what `Orderly` is about.  The ids of a client
are listed in the order in which their telegrams are on their way
(`Network.flight`), and a telegram that is passed on stays where it is in the
list; `Orderly.shrink` is all that most steps need.
-/
import JetPeer.Network
import JetPeer.Relay

namespace JetPeer

open Relays Runs

/-! ### Ids in flight -/

def Incoming.responseId : Incoming → Option UInt32
  | .notice _ => none
  | .response id _ => some id

def askedId (doc : Json) : Option UInt32 :=
  match readOrder doc with
  | some (.set id _) => some id
  | _ => none

def reportRoute (doc : Json) : Option Json :=
  match readReport doc with
  | some (.response route _) => some route
  | _ => none

namespace Network

variable {ι : Type*} [DecidableEq ι]

/-- The request of client `i` that an id of the daemon stands for. -/
def routedTo (s : Network ι) (i : ι) (route : Json) : Option UInt32 :=
  (s.routes route).join.bind fun r => if r.1 = i then some r.2 else none

/-- The ids of the daemon on their way to the owner and back, the next first. -/
def pending (s : Network ι) : List Json :=
  s.reports.filterMap reportRoute ++ s.calls.map Routed.route

/-- The ids of client `i` on their way to the owner and back, the next first. -/
def flight (s : Network ι) (i : ι) : List UInt32 :=
  (s.clients i).inbox.filterMap Incoming.responseId ++ s.pending.filterMap (s.routedTo i) ++
    (s.clients i).out.filterMap askedId

end Network

/-- Without a connection nothing is sent, and the fetch comes first. -/
def Client.Starting (c : Client) : Prop :=
  (c.connected = false ∧ c.out = []) ∨
    (c.connected = true ∧ ∃ doc rest, c.out = doc :: rest ∧ readOrder doc = some .fetch)

namespace Network

variable {ι : Type*} [DecidableEq ι]

/-- No id is used twice at a time, and everyone knows what theirs stand for. -/
structure Orderly (site : Site ι) (s : Network ι) : Prop where
  owner : s.owner.registry.tables.stateCallbacks.lookup site.path = some (some 0)
  clients : ∀ i, (s.clients i).registry.tables.fetchers.entries
    = [⟨site.fetchId i, ⟨some 0, site.matcher i⟩⟩]
  routed : s.pending.Nodup
  known : ∀ r ∈ s.pending, s.routes r ≠ none
  flight : ∀ i, (s.flight i).Nodup
  expected : ∀ i, ∀ id ∈ s.flight i, (s.clients i).requested id ≠ none
  calls : ∀ call ∈ s.calls, ∀ i id, s.routedTo i call.route = some id →
    (s.clients i).requested id = some call.value
  orders : ∀ i, ∀ doc ∈ (s.clients i).out, ∀ id value, readOrder doc = some (.set id value) →
    (s.clients i).requested id = some value
  unfetched : ∀ i, s.fetched i = false → (s.clients i).inbox = [] ∧
    (∀ r, s.routedTo i r = none) ∧ (s.clients i).Starting

end Network

/-! ### The network as a relay -/

/-- What is left of a state after a notification. -/
def Notice.left (n : Notice) : Option Json :=
  match n.event with
  | .remove => none
  | _ => some n.value

theorem Notice.update_apply (n : Notice) (m : String → Option Json) (path : String) :
    n.update.apply m path = if n.path = path then n.left else m path := by
  have hne : ∀ x : Option Json, Function.update m n.path x path
      = if n.path = path then x else m path := by
    intro x
    split_ifs with h
    · rw [h, Function.update_self]
    · exact Function.update_of_ne (Ne.symm h) _ _
  obtain ⟨event, path', value⟩ := n
  cases event <;> exact hne _

/-- A notification of the state is what the cache has from then on. -/
theorem Cache.lookup_after (c : Cache) (n : Notice) (path : String) :
    (c.after n.params 0).lookup path = if n.path = path then n.left else c.lookup path := by
  have h := congrFun (@valuesOf_after n c 0 (by decide)) path
  rw [Notice.update_apply] at h
  exact h

/-- What a telegram is to the copy of a client. -/
def Client.item (path : String) (c : Client) : Incoming → Option (Signal (Option Json))
  | .notice n => if n.path = path then some (.write n.left) else none
  | .response id reply =>
      if isError reply.1 then none else (c.requested id).map fun value => .ack (some value)

theorem Client.filterMap_push (path : String) (c : Client) (ds : List Incoming) :
    (c.push ds).inbox.filterMap ((c.push ds).item path)
      = c.inbox.filterMap (c.item path) ++ ds.filterMap (c.item path) :=
  List.filterMap_append ..

namespace Network

variable {ι : Type*} [DecidableEq ι] {site : Site ι} {s t : Network ι} {i : ι}

/-- What a telegram of the owner is to the copy of client `i`. -/
def item (s : Network ι) (i : ι) (doc : Json) : Option (Signal (Option Json)) :=
  match readReport doc with
  | some (.value v) => some (.write (some v))
  | some (.response route reply) =>
      if isError reply.1 then none
      else ((s.routedTo i route).bind (s.clients i).requested).map fun value => .ack (some value)
  | none => none

def view (site : Site ι) (s : Network ι) (i : ι) : Relay (Option Json) where
  source := some s.owner.value
  up := s.reports.filterMap (s.item i)
  hub := s.held
  down :=
    if s.fetched i then some ((s.clients i).inbox.filterMap ((s.clients i).item site.path))
    else none
  copy := (s.clients i).cache.lookup site.path

/-! ### Ids and telegrams -/

theorem routedTo_self {route : Json} {id : UInt32} (h : s.routes route = some (some (i, id))) :
    s.routedTo i route = some id := by
  rw [routedTo, h]
  exact if_pos rfl

theorem routedTo_of_ne {route : Json} {id : UInt32} {j : ι}
    (h : s.routes route = some (some (i, id))) (hj : j ≠ i) : s.routedTo j route = none := by
  rw [routedTo, h]
  exact if_neg (Ne.symm hj)

omit [DecidableEq ι] in
/-- Only a response takes its id along. -/
theorem pending_of_value {doc : Json} {rest : List Json} (hreports : s.reports = doc :: rest)
    (hroute : reportRoute doc = none) :
    s.pending = Network.pending { s with reports := rest } := by
  rw [pending, hreports, List.filterMap_cons_none hroute]
  rfl

omit [DecidableEq ι] in
theorem pending_of_response {doc route : Json} {reply : ResponseDoc} {rest : List Json}
    (hreports : s.reports = doc :: rest)
    (hread : readReport doc = some (.response route reply)) :
    s.pending = route :: Network.pending { s with reports := rest } := by
  have hroute : reportRoute doc = some route := by rw [reportRoute, hread]
  rw [pending, hreports, List.filterMap_cons_some hroute]
  rfl

/-! ### Nothing in flight changes its meaning -/

/-- What is in flight in `s` means the same in `t`. -/
structure SameMeaning (s t : Network ι) : Prop where
  routes : ∀ r ∈ s.pending, t.routes r = s.routes r
  requested : ∀ i, ∀ id ∈ s.flight i, (t.clients i).requested id = (s.clients i).requested id

theorem mem_flight_of_pending {r : Json} {id : UInt32} (hr : r ∈ s.pending)
    (hid : s.routedTo i r = some id) : id ∈ s.flight i :=
  List.mem_append_left _ (List.mem_append_right _ (List.mem_filterMap.mpr ⟨r, hr, hid⟩))

theorem mem_flight_of_out {doc : Json} {id : UInt32} {value : Json}
    (hdoc : doc ∈ (s.clients i).out) (h : readOrder doc = some (.set id value)) :
    id ∈ s.flight i := by
  refine List.mem_append_right _ (List.mem_filterMap.mpr ⟨doc, hdoc, ?_⟩)
  rw [askedId, h]

omit [DecidableEq ι] in
theorem mem_pending_of_calls {call : Routed} (h : call ∈ s.calls) : call.route ∈ s.pending :=
  List.mem_append_right _ (List.mem_map_of_mem h)

namespace SameMeaning

theorem routedTo (h : SameMeaning s t) {r : Json} (hr : r ∈ s.pending) (i : ι) :
    t.routedTo i r = s.routedTo i r := by
  unfold Network.routedTo
  rw [h.routes r hr]

theorem up (h : SameMeaning s t) (i : ι) :
    s.reports.filterMap (t.item i) = s.reports.filterMap (s.item i) := by
  refine List.filterMap_congr fun doc hdoc => ?_
  unfold Network.item
  rcases hr : readReport doc with - | ⟨v | ⟨route, reply⟩⟩
  · rfl
  · rfl
  · have hroute : route ∈ s.pending := by
      refine List.mem_append_left _ (List.mem_filterMap.mpr ⟨doc, hdoc, ?_⟩)
      rw [reportRoute, hr]
    simp only [h.routedTo hroute]
    rcases hid : s.routedTo i route with - | id
    · rfl
    · simp only [Option.bind_some, h.requested i id (mem_flight_of_pending hroute hid)]

theorem inbox (h : SameMeaning s t) (i : ι) :
    (s.clients i).inbox.filterMap ((t.clients i).item site.path)
      = (s.clients i).inbox.filterMap ((s.clients i).item site.path) := by
  refine List.filterMap_congr fun d hd => ?_
  cases d with
  | notice n => rfl
  | response id reply =>
      have hflight : id ∈ s.flight i :=
        List.mem_append_left _ (List.mem_append_left _ (List.mem_filterMap.mpr ⟨_, hd, rfl⟩))
      simp only [Client.item, h.requested i id hflight]

end SameMeaning

/-- **No new ids**: what is in flight afterwards was in flight before, and
means the same. -/
theorem Orderly.shrink (ho : Orderly site s) (hsame : SameMeaning t s)
    (howner : t.owner.registry = s.owner.registry)
    (hclients : ∀ i, (t.clients i).registry.tables = (s.clients i).registry.tables)
    (hpending : t.pending.Sublist s.pending) (hflight : ∀ i, (t.flight i).Subperm (s.flight i))
    (hcalls : t.calls ⊆ s.calls) (hout : ∀ i, (t.clients i).out ⊆ (s.clients i).out)
    (hunfetched : ∀ i, t.fetched i = false → s.fetched i = false ∧
      (t.clients i).inbox = (s.clients i).inbox ∧
      (t.clients i).connected = (s.clients i).connected ∧ (t.clients i).out = (s.clients i).out ∧
      ∀ r, t.routedTo i r = none ∨ t.routedTo i r = s.routedTo i r) : Orderly site t where
  owner := howner ▸ ho.owner
  clients := fun i => hclients i ▸ ho.clients i
  routed := ho.routed.sublist hpending
  known := fun r hr => hsame.routes r hr ▸ ho.known r (hpending.subset hr)
  flight := by
    intro i
    obtain ⟨l, hperm, hsub⟩ := hflight i
    exact hperm.nodup_iff.mp ((ho.flight i).sublist hsub)
  expected := by
    intro i id hid
    rw [← hsame.requested i id hid]
    exact ho.expected i id ((hflight i).subset hid)
  calls := by
    intro call hcall i id hid
    have hroute := mem_pending_of_calls hcall
    rw [← hsame.requested i id (mem_flight_of_pending hroute hid)]
    refine ho.calls call (hcalls hcall) i id ?_
    rw [hsame.routedTo hroute, hid]
  orders := by
    intro i doc hdoc id value hread
    rw [← hsame.requested i id (mem_flight_of_out hdoc hread)]
    exact ho.orders i doc (hout i hdoc) id value hread
  unfetched := by
    intro i hi
    obtain ⟨hfetched, hinbox, hconnected, hout, hroutes⟩ := hunfetched i hi
    obtain ⟨hempty, hrouted, hstarting⟩ := ho.unfetched i hfetched
    refine ⟨hinbox.trans hempty, fun r => ?_, ?_⟩
    · rcases hroutes r with h | h
      · exact h
      · exact h.trans (hrouted r)
    · rw [Client.Starting, hconnected, hout]
      exact hstarting

theorem Orderly.lookup_fetchers (ho : Orderly site s) (i : ι) :
    (s.clients i).registry.tables.fetchers.lookup (site.fetchId i)
      = some ⟨some 0, site.matcher i⟩ := by
  rw [AList.lookup, ho.clients i]
  exact List.dlookup_cons_eq ..

/-! ### Who has fetched -/

/-- A client that is sent anything has fetched. -/
theorem Orderly.fetched_of_inbox (ho : Orderly site s) {d : Incoming} {rest : List Incoming}
    (hinbox : (s.clients i).inbox = d :: rest) : s.fetched i = true := by
  by_contra hf
  have hempty := (ho.unfetched i (Bool.eq_false_iff.mpr hf)).1
  rw [hinbox] at hempty
  cases hempty

/-- The fetch comes first. -/
theorem Orderly.fetched_of_out (ho : Orderly site s) {doc : Json} {rest : List Json}
    (hout : (s.clients i).out = doc :: rest) (h : readOrder doc ≠ some .fetch) :
    s.fetched i = true := by
  by_contra hf
  obtain ⟨-, -, ⟨-, hempty⟩ | ⟨-, doc', rest', hout', hfetch⟩⟩ :=
    ho.unfetched i (Bool.eq_false_iff.mpr hf)
  · rw [hout] at hempty
    cases hempty
  · obtain ⟨rfl, -⟩ := List.cons.inj (hout.symm.trans hout')
    exact h hfetch

theorem Orderly.fetched_of_routed (ho : Orderly site s) {r : Json} {id : UInt32}
    (h : s.routedTo i r = some id) : s.fetched i = true := by
  by_contra hf
  have hnone := (ho.unfetched i (Bool.eq_false_iff.mpr hf)).2.1 r
  rw [h] at hnone
  cases hnone

/-- A response is to a request. -/
theorem Orderly.requested_of_inbox (ho : Orderly site s) {id : UInt32} {reply : ResponseDoc}
    {rest : List Incoming} (hinbox : (s.clients i).inbox = .response id reply :: rest) :
    ∃ value, (s.clients i).requested id = some value := by
  refine Option.ne_none_iff_exists'.mp (ho.expected i id ?_)
  rw [Network.flight, hinbox]
  exact List.mem_append_left _ (List.mem_append_left _ List.mem_cons_self)

/-! ### One client changes -/

section WithClient

variable {j : ι} {c : Client}

@[simp] theorem withClient_self : (s.withClient i c).clients i = c := Function.update_self ..

theorem withClient_of_ne (h : j ≠ i) : (s.withClient i c).clients j = s.clients j :=
  Function.update_of_ne h ..

@[simp] theorem flight_withClient_self : (s.withClient i c).flight i =
    c.inbox.filterMap Incoming.responseId ++ s.pending.filterMap (s.routedTo i) ++
      c.out.filterMap askedId := by
  show ((s.withClient i c).clients i).inbox.filterMap _ ++ _ ++
    ((s.withClient i c).clients i).out.filterMap _ = _
  rw [withClient_self]
  rfl

theorem flight_withClient_of_ne (h : j ≠ i) : (s.withClient i c).flight j = s.flight j := by
  show ((s.withClient i c).clients j).inbox.filterMap _ ++ _ ++
    ((s.withClient i c).clients j).out.filterMap _ = _
  rw [withClient_of_ne h]
  rfl

theorem view_withClient_of_ne (h : j ≠ i) :
    (s.withClient i c).view site j = s.view site j := by
  have hitem : (s.withClient i c).item j = s.item j := by
    funext doc
    simp only [Network.item, withClient_of_ne h]
    rfl
  rw [view, hitem, withClient_of_ne h]
  rfl

theorem view_of_fetched (h : s.fetched i = true) : s.view site i =
    ⟨some s.owner.value, s.reports.filterMap (s.item i), s.held,
      some ((s.clients i).inbox.filterMap ((s.clients i).item site.path)),
      (s.clients i).cache.lookup site.path⟩ := by
  rw [view, if_pos h]

/-- The ids of one client stand for what they did. -/
theorem sameMeaning_withClient
    (h : ∀ id ∈ (s.withClient i c).flight i, (s.clients i).requested id = c.requested id) :
    SameMeaning (s.withClient i c) s where
  routes := fun _ _ => rfl
  requested := by
    intro j id hid
    rcases eq_or_ne j i with rfl | hj
    · rw [withClient_self]
      exact h id hid
    · rw [withClient_of_ne hj]

/-- A client that has fetched gets on with what is in flight. -/
theorem Orderly.withClient (ho : Orderly site s) (hfetched : s.fetched i = true)
    (hsame : SameMeaning (s.withClient i c) s)
    (htables : c.registry.tables = (s.clients i).registry.tables)
    (hflight : ((s.withClient i c).flight i).Subperm (s.flight i))
    (hout : c.out ⊆ (s.clients i).out) : Orderly site (s.withClient i c) := by
  refine ho.shrink hsame rfl ?_ (List.Sublist.refl _) ?_ (List.Subset.refl _) ?_ ?_
  · intro j
    rcases eq_or_ne j i with rfl | hj
    · rw [withClient_self, htables]
    · rw [withClient_of_ne hj]
  · intro j
    rcases eq_or_ne j i with rfl | hj
    · exact hflight
    · rw [flight_withClient_of_ne hj]
  · intro j
    rcases eq_or_ne j i with rfl | hj
    · rw [withClient_self]
      exact hout
    · rw [withClient_of_ne hj]
      exact List.Subset.refl _
  · intro j hj
    have hne : j ≠ i := by
      rintro rfl
      exact Bool.false_ne_true (hj.symm.trans hfetched)
    rw [withClient_of_ne hne]
    exact ⟨hj, rfl, rfl, rfl, fun _ => .inr rfl⟩

theorem view_withClient (hfetched : s.fetched i = true)
    (hsame : SameMeaning (s.withClient i c) s) : (s.withClient i c).view site i =
    ⟨some s.owner.value, s.reports.filterMap (s.item i), s.held,
      some (c.inbox.filterMap (c.item site.path)), c.cache.lookup site.path⟩ := by
  have hup : s.reports.filterMap (s.item i) = s.reports.filterMap ((s.withClient i c).item i) :=
    hsame.up i
  rw [view_of_fetched (s := s.withClient i c) hfetched, withClient_self, hup]
  rfl

end WithClient

/-- Everyone who fetched is sent the same notification. -/
theorem clients_passValue (site : Site ι) (s : Network ι) (v : Json) :
    ∃ n : Notice, n.path = site.path ∧ n.left = some v ∧ n.value = v ∧ ∀ i,
      (pass site s (.value v)).clients i =
        if s.fetched i then (s.clients i).push [.notice n] else s.clients i := by
  refine ⟨⟨if s.held = none then .add else .change, site.path, v⟩, rfl, ?_, rfl, fun _ => rfl⟩
  rw [Notice.left]
  split_ifs <;> rfl

end Network

end JetPeer
