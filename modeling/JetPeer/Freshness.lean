/-
JetPeer/Freshness.lean

What a client can rely on: when the response to a request arrives, the cache
has the value that was asked for (`own_write_cached`), and when nothing is in
flight it has the value of the owner (`cache_settles`).

There is one lemma for each action.  It says that ids stay in order and that
to every client the action is a step of a relay or none at all
(`Simulated`); an owner that answers takes two.  This is where it counts that
`handleMessage` notifies a change before it responds.

A notification may be refused by the socket or too long for it.  `setCb` has
then taken over the value already, and nobody is told: `inStep_served_iff`.
-/
import JetPeer.Clients

namespace JetPeer

open Relays Runs

namespace Network

variable {ι : Type*} [DecidableEq ι] {site : Site ι} {s t : Network ι} {i : ι}

/-! ### One lemma an action -/

/-- What a step comes to in which the owner says `vs` and client `i` is told
`ws i`. -/
structure Simulated (site : Site ι) (s : Network ι) (vs : List Json)
    (ws : ι → List (Option Json)) (t : Network ι) : Prop where
  orderly : Orderly site t
  view : ∀ i,
    Relay.Path (s.view site i) (vs.map some) ((ws i).map (Option.map some)) (t.view site i)

/-- Nothing is said in it. -/
abbrev Passes (site : Site ι) (s t : Network ι) : Prop := Simulated site s [] (fun _ => []) t

/-- A notification of the state is one step of the copy, any other is none. -/
theorem Orderly.receive_notice (ho : Orderly site s) (hp : Plain site s) {n : Notice}
    {rest : List Incoming} (hinbox : (s.clients i).inbox = .notice n :: rest) :
    Simulated site s [] (fun j => told site j s (.receive i)) (s.withClient i { s.clients i with
      inbox := rest, cache := (s.clients i).cache.after n.params 0 }) := by
  have hfetched := ho.fetched_of_inbox hinbox
  have hsame : SameMeaning (s.withClient i { s.clients i with
      inbox := rest, cache := (s.clients i).cache.after n.params 0 }) s :=
    sameMeaning_withClient fun _ _ => rfl
  refine ⟨ho.withClient hfetched hsame rfl ?_ (List.Subset.refl _), fun j => ?_⟩
  · rw [flight_withClient_self, Network.flight, hinbox]
    exact List.Subperm.refl _
  · rcases eq_or_ne j i with rfl | hj
    · rw [view_of_fetched hfetched, view_withClient hfetched hsame, hinbox, Cache.lookup_after]
      simp only [told, hinbox, true_and]
      by_cases hpath : n.path = site.path
      · have hleft : n.left = some n.value :=
          (hp j).notices n (hinbox ▸ List.mem_cons_self) hpath
        have hitem : (s.clients j).item site.path (.notice n) = some (.write n.left) :=
          if_pos hpath
        rw [List.filterMap_cons_some hitem, if_pos hpath, if_pos hpath, hleft]
        exact .single .receive
      · have hitem : (s.clients j).item site.path (.notice n) = none := if_neg hpath
        rw [List.filterMap_cons_none hitem, if_neg hpath, if_neg hpath]
        exact .refl
    · have htold : told site j s (.receive i) = [] := by
        simp only [told, hinbox, Ne.symm hj, false_and, if_false]
      rw [view_withClient_of_ne hj, htold]
      exact .refl

/-- A response takes its id along. -/
theorem Orderly.receive_response (ho : Orderly site s) {id : UInt32} {reply : ResponseDoc}
    {rest : List Incoming} {value : Json}
    (hinbox : (s.clients i).inbox = .response id reply :: rest)
    (hvalue : (s.clients i).requested id = some value) :
    Passes site s (s.withClient i { s.clients i with
      inbox := rest
      registry := { (s.clients i).registry with
        requests := (s.clients i).registry.requests.erase id } }) := by
  have hfetched := ho.fetched_of_inbox hinbox
  have hflight : s.flight i = id :: (rest.filterMap Incoming.responseId ++
      s.pending.filterMap (s.routedTo i) ++ (s.clients i).out.filterMap askedId) := by
    rw [Network.flight, hinbox]
    rfl
  have hnodup := ho.flight i
  rw [hflight, List.nodup_cons] at hnodup
  have hsame : SameMeaning (s.withClient i { s.clients i with
      inbox := rest
      registry := { (s.clients i).registry with
        requests := (s.clients i).registry.requests.erase id } }) s := by
    refine sameMeaning_withClient fun id' hid' => ?_
    rw [flight_withClient_self] at hid'
    refine (Client.requested_erase (c := s.clients i) ?_).symm
    rintro rfl
    exact hnodup.1 hid'
  refine ⟨ho.withClient hfetched hsame rfl ?_ (List.Subset.refl _), fun j => ?_⟩
  · rw [flight_withClient_self, hflight]
    exact (List.sublist_cons_self _ _).subperm
  · rcases eq_or_ne j i with rfl | hj
    · have hrest := @SameMeaning.inbox ι _ site _ _ hsame j
      rw [withClient_self] at hrest
      rw [view_of_fetched hfetched, view_withClient hfetched hsame, hinbox, ← hrest]
      cases herr : isError reply.1 with
      | true =>
          have hitem : (s.clients j).item site.path (.response id reply) = none := by
            rw [Client.item, herr]
            rfl
          rw [List.filterMap_cons_none hitem]
          exact .refl
      | false =>
          have hitem : (s.clients j).item site.path (.response id reply)
              = some (.ack (some value)) := by
            rw [Client.item, herr, hvalue]
            rfl
          rw [List.filterMap_cons_some hitem]
          exact .single .receive
    · rw [view_withClient_of_ne hj]
      exact .refl

theorem Orderly.receive (ho : Orderly site s) (hp : Plain site s) {d : Incoming}
    {rest : List Incoming} (hinbox : (s.clients i).inbox = d :: rest) :
    Simulated site s [] (fun j => told site j s (.receive i)) (s.withClient i
      (Client.handle { s.clients i with inbox := rest } (d.telegram (site.fetchId i)))) := by
  cases d with
  | notice n =>
      rw [@Client.handle_notice { s.clients i with inbox := rest } _ _ n (site.isInt i)
        (ho.lookup_fetchers i) rfl]
      exact ho.receive_notice hp hinbox
  | response id reply =>
      obtain ⟨value, hvalue⟩ := ho.requested_of_inbox hinbox
      obtain ⟨k, hk, -⟩ := Option.bind_eq_some_iff.mp hvalue
      have htold : (fun j => told site j s (.receive i)) = fun _ => [] := by
        funext j
        simp only [told, hinbox]
      rw [@Client.handle_response { s.clients i with inbox := rest } _ _ reply k hk, htold]
      exact ho.receive_response hinbox hvalue

/-- Another state is none of ours. -/
theorem Orderly.other (ho : Orderly site s) {n : Notice} (hfetched : s.fetched i = true)
    (hpath : n.path ≠ site.path) :
    Passes site s (s.withClient i ((s.clients i).push [.notice n])) := by
  have hsame : SameMeaning (s.withClient i ((s.clients i).push [.notice n])) s :=
    sameMeaning_withClient fun _ _ => rfl
  refine ⟨ho.withClient hfetched hsame rfl ?_ (List.Subset.refl _), fun j => ?_⟩
  · rw [flight_withClient_self, Client.push, List.filterMap_append]
    simp only [List.filterMap_cons, List.filterMap_nil, Incoming.responseId, List.append_nil]
    exact List.Subperm.refl _
  · rcases eq_or_ne j i with rfl | hj
    · have hitem : (s.clients j).item site.path (.notice n) = none := if_neg hpath
      rw [view_of_fetched hfetched, view_withClient hfetched hsame, Client.filterMap_push,
        List.filterMap_cons_none hitem, List.filterMap_nil, List.append_nil]
      exact .refl
    · rw [view_withClient_of_ne hj]
      exact .refl

theorem perm_move (xs ys zs : List UInt32) (id : UInt32) :
    (xs ++ [id] ++ ys ++ zs).Perm (xs ++ ys ++ id :: zs) := by
  simpa using (List.perm_middle.symm).append_left xs

/-- The daemon answers by itself. -/
theorem Orderly.refuse (ho : Orderly site s) {doc : Json} {rest : List Json} {id : UInt32}
    {value : Json} (hout : (s.clients i).out = doc :: rest)
    (hread : readOrder doc = some (.set id value)) :
    Passes site s (s.withClient i
      (Client.push { s.clients i with out := rest } [.response id notFound])) := by
  have hfetched : s.fetched i = true := ho.fetched_of_out hout (by rw [hread]; nofun)
  have hsame : SameMeaning (s.withClient i
      (Client.push { s.clients i with out := rest } [.response id notFound])) s :=
    sameMeaning_withClient fun _ _ => rfl
  refine ⟨ho.withClient hfetched hsame rfl ?_ ?_, fun j => ?_⟩
  · have hid : askedId doc = some id := by rw [askedId, hread]
    rw [flight_withClient_self, Network.flight, hout, List.filterMap_cons_some hid, Client.push,
      List.filterMap_append]
    exact (perm_move _ _ _ id).subperm
  · rw [hout]
    exact List.subset_cons_self _ _
  · rcases eq_or_ne j i with rfl | hj
    · have hitem : Client.item site.path { s.clients j with out := rest }
          (.response id notFound) = none := rfl
      rw [view_of_fetched hfetched, view_withClient hfetched hsame, Client.filterMap_push,
        List.filterMap_cons_none hitem, List.filterMap_nil, List.append_nil]
      exact .refl
    · rw [view_withClient_of_ne hj]
      exact .refl

/-- What the daemon does not understand it drops. -/
theorem Orderly.skip (ho : Orderly site s) {doc : Json} {rest : List Json}
    (hout : (s.clients i).out = doc :: rest) (hread : readOrder doc = none) :
    Passes site s (s.withClient i { s.clients i with out := rest }) := by
  have hfetched : s.fetched i = true := ho.fetched_of_out hout (by rw [hread]; nofun)
  have hsame : SameMeaning (s.withClient i { s.clients i with out := rest }) s :=
    sameMeaning_withClient fun _ _ => rfl
  refine ⟨ho.withClient hfetched hsame rfl ?_ ?_, fun j => ?_⟩
  · have hid : askedId doc = none := by rw [askedId, hread]
    rw [flight_withClient_self, Network.flight, hout, List.filterMap_cons_none hid]
  · rw [hout]
    exact List.subset_cons_self _ _
  · rcases eq_or_ne j i with rfl | hj
    · rw [view_of_fetched hfetched, view_withClient hfetched hsame]
      exact .refl
    · rw [view_withClient_of_ne hj]
      exact .refl

/-- Of a client that has fetched less is asked. -/
theorem Orderly.subscribe (ho : Orderly site s) :
    Orderly site { s with fetched := Function.update s.fetched i true } :=
  { ho with
    unfetched := by
      intro j hj
      rcases eq_or_ne j i with rfl | hne
      · have htrue : Function.update s.fetched j true j = true := Function.update_self ..
        exact absurd (hj.symm.trans htrue) Bool.false_ne_true
      · have hold : Function.update s.fetched i true j = s.fetched j := Function.update_of_ne hne ..
        exact ho.unfetched j (hold.symm.trans hj) }

/-- What the daemon has is what the copy is to begin with. -/
theorem Orderly.view_fetch (ho : Orderly site s) (hp : Plain site s)
    (hunfetched : s.fetched i = false) :
    Relay.Path (s.view site i) [] []
      ⟨some s.owner.value, s.reports.filterMap (s.item i), s.held,
        some ((s.clients i).inbox.filterMap ((s.clients i).item site.path) ++
          (s.held.toList.map fun v => Incoming.notice ⟨.add, site.path, v⟩).filterMap
            ((s.clients i).item site.path)),
        (s.clients i).cache.lookup site.path⟩ := by
  have hinbox : (s.clients i).inbox = [] := (ho.unfetched i hunfetched).1
  have hview : s.view site i = ⟨some s.owner.value, s.reports.filterMap (s.item i), s.held, none,
      (s.clients i).cache.lookup site.path⟩ := by
    rw [view, hunfetched]
    rfl
  rw [hview, hinbox, List.filterMap_nil, List.nil_append]
  cases hheld : s.held with
  | none =>
      rw [((hp i).unheld hheld).1]
      exact .single .agree
  | some v =>
      have hitem : (s.clients i).item site.path (.notice ⟨.add, site.path, v⟩)
        = some (.write (some v)) := if_pos rfl
      rw [Option.toList_some, List.map_singleton, List.filterMap_cons_some hitem,
        List.filterMap_nil]
      exact .single .announce

/-- A fetch begins with what the daemon has. -/
theorem Orderly.fetch (ho : Orderly site s) (hp : Plain site s) {doc route : Json}
    {rest : List Json}
    (hout : (s.clients i).out = doc :: rest) (hread : readOrder doc = some .fetch)
    (ht : s.order site i { s.clients i with out := rest } route .fetch = some t) :
    Passes site s t := by
  obtain rfl := Option.some.inj ht
  let c := Client.push { s.clients i with out := rest }
    (s.held.toList.map fun v => .notice ⟨.add, site.path, v⟩)
  let s' : Network ι := { s with fetched := Function.update s.fetched i true }
  have ho' : Orderly site s' := ho.subscribe
  have hfetched : s'.fetched i = true := Function.update_self ..
  have hsame : SameMeaning (s'.withClient i c) s' := sameMeaning_withClient fun _ _ => rfl
  show Passes site s (s'.withClient i c)
  refine ⟨ho'.withClient hfetched hsame rfl ?_ ?_, fun j => ?_⟩
  · have hid : askedId doc = none := by rw [askedId, hread]
    have hinbox : c.inbox.filterMap Incoming.responseId
        = (s.clients i).inbox.filterMap Incoming.responseId := by
      show List.filterMap _ (_ ++ _) = _
      rw [List.filterMap_append]
      cases s.held <;> simp [Incoming.responseId]
    rw [flight_withClient_self, hinbox, Network.flight]
    show List.Subperm _ (_ ++ _ ++ (s.clients i).out.filterMap askedId)
    rw [hout, List.filterMap_cons_none hid]
    exact List.Subperm.refl _
  · show rest ⊆ (s.clients i).out
    rw [hout]
    exact List.subset_cons_self _ _
  · rcases eq_or_ne j i with rfl | hj
    · rw [view_withClient hfetched hsame, Client.filterMap_push]
      exact ho.view_fetch hp ((hp j).fetch hout (by rw [isFetch, hread])).1
    · have hview : s'.view site j = s.view site j := by
        have hold : s'.fetched j = s.fetched j := Function.update_of_ne hj ..
        rw [view, hold]
        rfl
      rw [view_withClient_of_ne hj, hview]
      exact .refl

/-- Where nothing is added and nothing is taken away, nothing can be seen. -/
theorem SameMeaning.view_eq (h : SameMeaning s t) (howner : t.owner = s.owner)
    (hreports : t.reports = s.reports) (hheld : t.held = s.held) (hfetched : t.fetched = s.fetched)
    (hinbox : (t.clients i).inbox = (s.clients i).inbox)
    (hcache : (t.clients i).cache = (s.clients i).cache) : t.view site i = s.view site i := by
  rw [view, view, howner, hreports, hheld, hfetched, hinbox, hcache, h.up i, h.inbox i]

section PassOn

variable {doc : Json} {rest : List Json} {id : UInt32} {call : Routed}

theorem passOn_requested (j : ι) (id' : UInt32) :
    ((s.passOn i { s.clients i with out := rest } id call).clients j).requested id'
      = (s.clients j).requested id' := by
  show ((s.withClient i _).clients j).requested id' = _
  rcases eq_or_ne j i with rfl | hj
  · rw [withClient_self]
    rfl
  · rw [withClient_of_ne hj]

theorem passOn_routedTo_self (c : Client) :
    (s.passOn i c id call).routedTo i call.route = some id :=
  routedTo_self (Function.update_self ..)

theorem passOn_routedTo_of_ne (c : Client) {j : ι} (h : j ≠ i) :
    (s.passOn i c id call).routedTo j call.route = none :=
  routedTo_of_ne (Function.update_self ..) h

theorem passOn_pending (c : Client) :
    (s.passOn i c id call).pending = s.pending ++ [call.route] := by
  show _ ++ List.map _ (_ ++ _) = _
  rw [List.map_append, ← List.append_assoc]
  rfl

/-- A new id is none that is in use. -/
theorem Orderly.sameMeaning_passOn (ho : Orderly site s) (hnew : s.routes call.route = none) :
    SameMeaning s (s.passOn i { s.clients i with out := rest } id call) where
  routes := by
    intro r hr
    refine Function.update_of_ne ?_ ..
    rintro rfl
    exact ho.known _ hr hnew
  requested := fun j id' _ => passOn_requested j id'

/-- The request is in flight as it was before. -/
theorem Orderly.flight_passOn (ho : Orderly site s) (hnew : s.routes call.route = none)
    (hout : (s.clients i).out = doc :: rest) (hid : askedId doc = some id) (j : ι) :
    (s.passOn i { s.clients i with out := rest } id call).flight j = s.flight j := by
  have hsame : SameMeaning s (s.passOn i { s.clients i with out := rest } id call) :=
    ho.sameMeaning_passOn hnew
  have hold := List.filterMap_congr fun r hr => hsame.routedTo hr j
  rw [Network.flight, Network.flight, passOn_pending, List.filterMap_append, hold]
  show ((s.withClient i _).clients j).inbox.filterMap _ ++ _ ++
    ((s.withClient i _).clients j).out.filterMap _ = _
  rcases eq_or_ne j i with rfl | hj
  · rw [List.filterMap_cons_some (passOn_routedTo_self _), hout, List.filterMap_cons_some hid,
      withClient_self]
    simp
  · rw [List.filterMap_cons_none (passOn_routedTo_of_ne _ hj), List.filterMap_nil,
      List.append_nil, withClient_of_ne hj]

/-- What there is of a client is there afterwards, but for the telegram. -/
theorem passOn_clients (id : UInt32) (call : Routed) (hout : (s.clients i).out = doc :: rest)
    (j : ι) : ∃ out ⊆ (s.clients j).out,
      (s.passOn i { s.clients i with out := rest } id call).clients j
        = { s.clients j with out := out } ∧ (j ≠ i → out = (s.clients j).out) := by
  show ∃ out ⊆ (s.clients j).out, (s.withClient i _).clients j = _ ∧ _
  rcases eq_or_ne j i with rfl | hj
  · refine ⟨rest, ?_, withClient_self, fun h => absurd rfl h⟩
    rw [hout]
    exact List.subset_cons_self _ _
  · exact ⟨(s.clients j).out, List.Subset.refl _, withClient_of_ne hj, fun _ => rfl⟩

/-- The daemon passes a request on under a new id. -/
theorem Orderly.passOn (ho : Orderly site s) (hnew : s.routes call.route = none)
    (hout : (s.clients i).out = doc :: rest)
    (hread : readOrder doc = some (.set id call.value)) :
    Passes site s (s.passOn i { s.clients i with out := rest } id call) := by
  have hfetched : s.fetched i = true := ho.fetched_of_out hout (by rw [hread]; nofun)
  have hsame : SameMeaning s (s.passOn i { s.clients i with out := rest } id call) :=
    ho.sameMeaning_passOn hnew
  have hflight := ho.flight_passOn hnew hout (show askedId doc = some id by rw [askedId, hread])
  constructor
  · refine { owner := ho.owner, clients := ?_, routed := ?_, known := ?_, flight := ?_,
             expected := ?_, calls := ?_, orders := ?_, unfetched := ?_ }
    · intro j
      obtain ⟨out, -, hc, -⟩ := passOn_clients id call hout j
      rw [hc]
      exact ho.clients j
    · rw [passOn_pending, ← List.concat_eq_append]
      exact ho.routed.concat fun h => ho.known _ h hnew
    · intro r hr
      rw [passOn_pending] at hr
      rcases List.mem_append.mp hr with hr | hr
      · rw [hsame.routes r hr]
        exact ho.known r hr
      · obtain rfl := List.mem_singleton.mp hr
        exact (Function.update_self ..).trans_ne (Option.some_ne_none _)
    · intro j
      rw [hflight]
      exact ho.flight j
    · intro j id' hid'
      rw [hflight] at hid'
      rw [passOn_requested]
      exact ho.expected j id' hid'
    · intro call' hcall j id' hrouted
      rw [passOn_requested]
      rcases List.mem_append.mp hcall with hcall | hcall
      · rw [hsame.routedTo (mem_pending_of_calls hcall)] at hrouted
        exact ho.calls call' hcall j id' hrouted
      · obtain rfl := List.mem_singleton.mp hcall
        rcases eq_or_ne j i with rfl | hj
        · obtain rfl := Option.some.inj ((passOn_routedTo_self _).symm.trans hrouted)
          exact ho.orders j doc (hout ▸ List.mem_cons_self) _ _ hread
        · rw [passOn_routedTo_of_ne _ hj] at hrouted
          cases hrouted
    · intro j doc' hdoc id' value hread'
      obtain ⟨out, hsub, hc, -⟩ := passOn_clients id call hout j
      rw [passOn_requested]
      rw [hc] at hdoc
      exact ho.orders j doc' (hsub hdoc) id' value hread'
    · intro j hj
      have hne : j ≠ i := by
        rintro rfl
        exact Bool.false_ne_true (hj.symm.trans hfetched)
      obtain ⟨out, -, hc, hsameOut⟩ := passOn_clients id call hout j
      obtain ⟨hinbox, hrouted, hstarting⟩ := ho.unfetched j hj
      obtain rfl := hsameOut hne
      rw [hc]
      refine ⟨hinbox, fun r => ?_, hstarting⟩
      rcases eq_or_ne r call.route with rfl | hr
      · exact passOn_routedTo_of_ne _ hne
      · have hold : (s.passOn i { s.clients i with out := rest } id call).routes r = s.routes r :=
          Function.update_of_ne hr ..
        rw [routedTo, hold]
        exact hrouted r
  · intro j
    obtain ⟨out, -, hc, -⟩ := passOn_clients id call hout j
    rw [hsame.view_eq rfl rfl rfl rfl (by rw [hc]) (by rw [hc])]
    exact .refl

end PassOn

section Ask

variable {value : Json}

/-- What was asked for before stays. -/
theorem Orderly.sameMeaning_ask (ho : Orderly site s)
    (hfresh : (s.clients i).registry.requests.openRequestCbs.lookup
      ((s.clients i).registry.requests.sid + 1) = none) :
    SameMeaning s (s.withClient i ((s.clients i).ask site.path value)) where
  routes := fun _ _ => rfl
  requested := by
    intro j id hid
    rcases eq_or_ne j i with rfl | hj
    · obtain ⟨w, hw⟩ := Option.ne_none_iff_exists'.mp (ho.expected j id hid)
      rw [withClient_self, hw]
      exact Client.requested_ask hfresh hw
    · rw [withClient_of_ne hj]

/-- An id that is not in use is not in flight. -/
theorem Orderly.not_mem_flight (ho : Orderly site s) {id : UInt32}
    (h : (s.clients i).registry.requests.openRequestCbs.lookup id = none) : id ∉ s.flight i := by
  intro hid
  refine ho.expected i _ hid ?_
  rw [Client.requested, RequestTable.callback, h]
  rfl

theorem flight_ask : (s.withClient i ((s.clients i).ask site.path value)).flight i
    = s.flight i ++ [(s.clients i).registry.requests.sid + 1] := by
  have hid : askedId (withId (requestDoc Word.set
      ((Json.null.set Word.path (.string site.path)).set Word.value value))
        ((s.clients i).registry.requests.sid + 1))
          = some ((s.clients i).registry.requests.sid + 1) := by
    rw [askedId, readOrder_set]
  rw [flight_withClient_self, Client.ask, List.filterMap_append, List.filterMap_cons_some hid,
    List.filterMap_nil, ← List.append_assoc]
  rfl

/-- What a client has written is one telegram more. -/
theorem Orderly.orders_ask (ho : Orderly site s)
    (hfresh : (s.clients i).registry.requests.openRequestCbs.lookup
      ((s.clients i).registry.requests.sid + 1) = none) {j : ι} {doc w : Json} {id : UInt32}
    (hdoc : doc ∈ ((s.withClient i ((s.clients i).ask site.path value)).clients j).out)
    (hread : readOrder doc = some (.set id w)) :
    ((s.withClient i ((s.clients i).ask site.path value)).clients j).requested id = some w := by
  have hold (hdoc : doc ∈ (s.clients j).out) :
      ((s.withClient i ((s.clients i).ask site.path value)).clients j).requested id
        = some w := by
    rw [(ho.sameMeaning_ask hfresh).requested j id (mem_flight_of_out hdoc hread)]
    exact ho.orders j doc hdoc id w hread
  rcases eq_or_ne j i with rfl | hj
  · rw [withClient_self] at hdoc
    rcases List.mem_append.mp hdoc with hdoc | hdoc
    · exact hold hdoc
    · obtain rfl := List.mem_singleton.mp hdoc
      rw [readOrder_set] at hread
      cases hread
      rw [withClient_self]
      exact Client.requested_ask_self
  · rw [withClient_of_ne hj] at hdoc
    exact hold hdoc

/-- A client asks, with an id that is not in use. -/
theorem Orderly.ask (ho : Orderly site s) (hconnected : (s.clients i).connected = true)
    (hfresh : (s.clients i).registry.requests.openRequestCbs.lookup
      ((s.clients i).registry.requests.sid + 1) = none) :
    Passes site s (s.withClient i ((s.clients i).ask site.path value)) := by
  have hsame : SameMeaning s (s.withClient i ((s.clients i).ask site.path value)) :=
    ho.sameMeaning_ask hfresh
  constructor
  · refine { owner := ho.owner, clients := ?_, routed := ho.routed, known := ho.known, flight := ?_,
             expected := ?_, calls := ?_, orders := ?_, unfetched := ?_ }
    · intro j
      rcases eq_or_ne j i with rfl | hj
      · rw [withClient_self]
        exact ho.clients j
      · rw [withClient_of_ne hj]
        exact ho.clients j
    · intro j
      rcases eq_or_ne j i with rfl | hj
      · rw [flight_ask, ← List.concat_eq_append]
        exact (ho.flight j).concat (ho.not_mem_flight hfresh)
      · rw [flight_withClient_of_ne hj]
        exact ho.flight j
    · intro j id hid
      rcases eq_or_ne j i with rfl | hj
      · rw [flight_ask] at hid
        rcases List.mem_append.mp hid with hid | hid
        · rw [hsame.requested j id hid]
          exact ho.expected j id hid
        · obtain rfl := List.mem_singleton.mp hid
          rw [withClient_self, Client.requested_ask_self]
          exact Option.some_ne_none _
      · rw [flight_withClient_of_ne hj] at hid
        rw [withClient_of_ne hj]
        exact ho.expected j id hid
    · intro call hcall j id hrouted
      rw [hsame.requested j id (mem_flight_of_pending (mem_pending_of_calls hcall) hrouted)]
      exact ho.calls call hcall j id hrouted
    · exact fun j doc hdoc id w hread => ho.orders_ask hfresh hdoc hread
    · intro j hj
      obtain ⟨hinbox, hrouted, hstarting⟩ := ho.unfetched j hj
      rcases eq_or_ne j i with rfl | hne
      · rw [withClient_self]
        rcases hstarting with ⟨hlost, -⟩ | ⟨-, doc, rest, hout, hread⟩
        · exact absurd (hlost.symm.trans hconnected) Bool.false_ne_true
        · exact ⟨hinbox, hrouted, .inr ⟨hconnected, doc, _, congrArg (· ++ _) hout, hread⟩⟩
      · rw [withClient_of_ne hne]
        exact ⟨hinbox, hrouted, hstarting⟩
  · intro j
    rcases eq_or_ne j i with rfl | hj
    · rw [hsame.view_eq rfl rfl rfl rfl (by rw [withClient_self]; rfl)
        (by rw [withClient_self]; rfl)]
      exact .refl
    · rw [view_withClient_of_ne hj]
      exact .refl

end Ask

/-- Of what the owner sends only the response has an id. -/
theorem Serves.routes {path : String} {o owner : Owner} {call : Routed} {docs : List Json}
    (h : o.Serves path call owner docs) :
    (docs.filterMap reportRoute).Sublist [call.route] ∧ owner.registry = o.registry := by
  cases h with
  | ignored => exact ⟨List.nil_sublist _, rfl⟩
  | served answer hanswer =>
      refine ⟨?_, rfl⟩
      have hroute : reportRoute (changeNotification path call.value) = none := by
        rw [reportRoute, readReport_changeNotification]
      have hchange : (if o.value = call.value then []
          else [changeNotification path call.value]).filterMap reportRoute = [] := by
        split_ifs
        · rfl
        · exact List.filterMap_cons_none hroute
      rw [List.filterMap_append, hchange, List.nil_append]
      rcases hanswer with rfl | ⟨doc, rfl, hmethod, hread, -⟩
      · exact List.nil_sublist _
      · have hroute : reportRoute doc = some call.route := by rw [reportRoute, hread]
        rw [List.filterMap_cons_some hroute, List.filterMap_nil]

/-- A response acknowledges what the request asked for, if the request is this
client's. -/
theorem Orderly.item_answer (ho : Orderly site s) {call : Routed} {doc : Json}
    (hcall : call ∈ s.calls) (hdoc : IsSuccess call.route doc) (i : ι) :
    s.item i doc = none ∨ s.item i doc = some (.ack (some call.value)) := by
  obtain ⟨hmethod, hread, herr⟩ := hdoc
  rw [Network.item, hread]
  simp only [herr, Bool.false_eq_true, if_false]
  rcases hrouted : s.routedTo i call.route with - | id
  · exact .inl rfl
  · rw [Option.bind_some, ho.calls call hcall i id hrouted]
    exact .inr rfl

/-- The owner answers a request. -/
theorem Orderly.serve (ho : Orderly site s) {call : Routed} {rest : List Routed}
    {owner : Owner} {docs : List Json} (hcalls : s.calls = call :: rest)
    (hserves : s.owner.Serves site.path call owner docs) :
    Simulated site s (if owner.value = s.owner.value then [] else [owner.value]) (fun _ => [])
      { s with owner := owner, calls := rest, reports := s.reports ++ docs } := by
  obtain ⟨hroutes, hregistry⟩ := Serves.routes hserves
  have hpending : Network.pending { s with
      owner := owner, calls := rest, reports := s.reports ++ docs } |>.Sublist s.pending := by
    show (List.filterMap _ (_ ++ _) ++ _).Sublist (_ ++ s.calls.map Routed.route)
    rw [hcalls, List.filterMap_append, List.append_assoc]
    exact (hroutes.append (List.Sublist.refl (rest.map Routed.route))).append_left _
  constructor
  · refine ho.shrink ⟨fun _ _ => rfl, fun _ _ _ => rfl⟩ hregistry (fun _ => rfl) hpending ?_ ?_
      (fun _ => List.Subset.refl _) fun i hi => ⟨hi, rfl, rfl, rfl, fun _ => .inr rfl⟩
    · intro i
      exact (((List.Sublist.refl _).append (hpending.filterMap (s.routedTo i))).append
        (List.Sublist.refl _)).subperm
    · show rest ⊆ s.calls
      rw [hcalls]
      exact List.subset_cons_self _ _
  · intro i
    show Relay.Path _ _ _
      ⟨some owner.value, (s.reports ++ docs).filterMap (s.item i), s.held, (s.view site i).down,
        (s.view site i).copy⟩
    rw [List.filterMap_append]
    cases hserves with
    | ignored =>
        rw [List.filterMap_nil, List.append_nil, if_pos rfl]
        exact .refl
    | served answer hanswer =>
        -- the change, if there is one
        have hchange : Relay.Path (s.view site i)
            ((if call.value = s.owner.value then [] else [call.value]).map some) []
            ⟨some call.value, s.reports.filterMap (s.item i) ++
              (if s.owner.value = call.value then []
                else [changeNotification site.path call.value]).filterMap (s.item i),
              s.held, (s.view site i).down, (s.view site i).copy⟩ := by
          by_cases heq : call.value = s.owner.value
          · rw [if_pos heq, if_pos heq.symm, heq, List.filterMap_nil, List.append_nil]
            exact .refl
          · have hitem : s.item i (changeNotification site.path call.value)
                = some (.write (some call.value)) := by
              rw [Network.item, readReport_changeNotification]
            rw [if_neg heq, if_neg (Ne.symm heq), List.filterMap_cons_some hitem,
              List.filterMap_nil]
            exact .single (.change _)
        -- then the response
        rw [List.filterMap_append, ← List.append_assoc]
        rcases hanswer with rfl | ⟨doc, rfl, hdoc⟩
        · rw [List.filterMap_nil, List.append_nil]
          exact hchange
        · rcases ho.item_answer (hcalls ▸ List.mem_cons_self) hdoc i with hitem | hitem
          · rw [List.filterMap_cons_none hitem, List.filterMap_nil, List.append_nil]
            exact hchange
          · rw [List.filterMap_cons_some hitem, List.filterMap_nil]
            have hack := hchange.tail .ack
            rwa [List.append_nil] at hack

/-- What the daemon does not understand it drops. -/
theorem Orderly.ignore (ho : Orderly site s) {doc : Json} {rest : List Json}
    (hreports : s.reports = doc :: rest) (hread : readReport doc = none) :
    Passes site s { s with reports := rest } := by
  have hpending : s.pending = Network.pending { s with reports := rest } :=
    pending_of_value hreports (by rw [reportRoute, hread])
  constructor
  · refine ho.shrink ⟨fun _ _ => rfl, fun _ _ _ => rfl⟩ rfl (fun _ => rfl) ?_ ?_
      (List.Subset.refl _) (fun _ => List.Subset.refl _)
      fun i hi => ⟨hi, rfl, rfl, rfl, fun _ => .inr rfl⟩
    · rw [hpending]
    · intro i
      rw [Network.flight, Network.flight, hpending]
      exact List.Subperm.refl _
  · intro i
    have hitem : s.item i doc = none := by rw [Network.item, hread]
    rw [view, view, hreports, List.filterMap_cons_none hitem]
    exact .refl

/-- A new value is passed on. -/
theorem Orderly.passValue (ho : Orderly site s) {doc v : Json} {rest : List Json}
    (hreports : s.reports = doc :: rest) (hread : readReport doc = some (.value v)) :
    Passes site s (Network.pass site { s with reports := rest } (.value v)) := by
  obtain ⟨n, hpath, hleft, -, hclients⟩ := clients_passValue site { s with reports := rest } v
  set t : Network ι := Network.pass site { s with reports := rest } (.value v)
  have hsame : SameMeaning t s := by
    refine ⟨fun _ _ => rfl, fun i id _ => ?_⟩
    rw [hclients]
    split_ifs <;> rfl
  have hpending : s.pending = t.pending :=
    pending_of_value hreports (by rw [reportRoute, hread])
  constructor
  · refine ho.shrink hsame rfl ?_ ?_ ?_ (List.Subset.refl _) ?_ ?_
    · intro i
      rw [hclients]
      split_ifs <;> rfl
    · rw [hpending]
    · intro i
      have hinbox : (t.clients i).inbox.filterMap Incoming.responseId
          = (s.clients i).inbox.filterMap Incoming.responseId := by
        rw [hclients]
        split_ifs
        · rw [Client.push, List.filterMap_append]
          exact List.append_nil _
        · rfl
      have hout : (t.clients i).out = (s.clients i).out := by
        rw [hclients]
        split_ifs <;> rfl
      rw [Network.flight, Network.flight, hinbox, hout, hpending]
      exact List.Subperm.refl _
    · intro i
      rw [hclients]
      split_ifs <;> exact List.Subset.refl _
    · intro i hi
      have hi' : s.fetched i = false := hi
      have hclient : t.clients i = s.clients i := by
        rw [hclients, hi']
        rfl
      exact ⟨hi', congrArg _ hclient, congrArg _ hclient, congrArg _ hclient, fun _ => .inr rfl⟩
  · intro i
    have hitem : s.item i doc = some (.write (some v)) := by rw [Network.item, hread]
    have hup : rest.filterMap (s.item i) = rest.filterMap (t.item i) := hsame.up i
    have hview : t.view site i = ⟨some s.owner.value, rest.filterMap (s.item i), some v,
        (s.view site i).down.map (· ++ [.write (some v)]), (s.view site i).copy⟩ := by
      cases hf : s.fetched i with
      | true =>
          have hnotice : (s.clients i).item site.path (.notice n) = some (.write (some v)) := by
            rw [Client.item, if_pos hpath, hleft]
          have hc : t.clients i = (s.clients i).push [.notice n] := by rw [hclients, if_pos hf]
          rw [view_of_fetched (s := t) hf, view_of_fetched hf, hc, Client.filterMap_push,
            List.filterMap_cons_some hnotice, List.filterMap_nil, hup]
          rfl
      | false =>
          have hc : t.clients i = s.clients i := by
            rw [hclients, hf]
            rfl
          rw [view, view, hc, hup, show t.fetched i = false from hf, hf]
          rfl
    rw [hview, view, hreports, List.filterMap_cons_some hitem]
    exact .single .pass

section PassBack

variable {doc route : Json} {reply : ResponseDoc} {rest : List Json} {id : UInt32}

/-- The id of the daemon is free again, and no other changes. -/
theorem Orderly.sameMeaning_passBack (ho : Orderly site s)
    (hpending : s.pending = route :: Network.pending { s with reports := rest }) :
    SameMeaning (Network.passBack { s with reports := rest } i id route reply) s where
  routes := by
    intro r hr
    have hnodup := ho.routed
    rw [hpending, List.nodup_cons] at hnodup
    refine (Function.update_of_ne ?_ ..).symm
    rintro rfl
    exact hnodup.1 hr
  requested := by
    intro j id' _
    show _ = ((Network.withClient { s with reports := rest } i _).clients j).requested id'
    rcases eq_or_ne j i with rfl | hj
    · rw [withClient_self]
      rfl
    · rw [withClient_of_ne hj]

/-- The response is in flight as it was before. -/
theorem Orderly.flight_passBack (ho : Orderly site s)
    (hpending : s.pending = route :: Network.pending { s with reports := rest })
    (hid : s.routes route = some (some (i, id))) (j : ι) :
    (Network.passBack { s with reports := rest } i id route reply).flight j = s.flight j := by
  have hsame : SameMeaning (Network.passBack { s with reports := rest } i id route reply) s :=
    ho.sameMeaning_passBack hpending
  have hold := List.filterMap_congr fun r hr => hsame.routedTo hr j
  rw [Network.flight, Network.flight, hpending, ← hold]
  show ((Network.withClient { s with reports := rest } i _).clients j).inbox.filterMap _ ++ _ ++
    ((Network.withClient { s with reports := rest } i _).clients j).out.filterMap _ = _
  rcases eq_or_ne j i with rfl | hj
  · rw [withClient_self, List.filterMap_cons_some (routedTo_self hid), Client.push, List.filterMap_append]
    show _ ++ [id] ++ (Network.pending { s with reports := rest }).filterMap _ ++ _ = _
    simp
  · rw [withClient_of_ne hj, List.filterMap_cons_none (routedTo_of_ne hid hj)]
    rfl

theorem Orderly.orderly_passBack (ho : Orderly site s)
    (hpending : s.pending = route :: Network.pending { s with reports := rest })
    (hid : s.routes route = some (some (i, id))) (hfetched : s.fetched i = true) :
    Orderly site (Network.passBack { s with reports := rest } i id route reply) := by
  have hclients : ∀ j, j ≠ i →
      (Network.passBack { s with reports := rest } i id route reply).clients j = s.clients j :=
    fun j hj => withClient_of_ne hj
  have hself : (Network.passBack { s with reports := rest } i id route reply).clients i
      = (s.clients i).push [.response id reply] := withClient_self
  refine ho.shrink (ho.sameMeaning_passBack hpending) rfl ?_ ?_ ?_ (List.Subset.refl _) ?_ ?_
  · intro j
    rcases eq_or_ne j i with rfl | hj
    · rw [hself]
      rfl
    · rw [hclients j hj]
  · rw [hpending]
    exact List.sublist_cons_self _ _
  · intro j
    rw [ho.flight_passBack hpending hid]
  · intro j
    rcases eq_or_ne j i with rfl | hj
    · rw [hself]
      exact List.Subset.refl _
    · rw [hclients j hj]
      exact List.Subset.refl _
  · intro j hj
    have hne : j ≠ i := by
      rintro rfl
      exact Bool.false_ne_true (hj.symm.trans hfetched)
    rw [hclients j hne]
    refine ⟨hj, rfl, rfl, rfl, fun r => ?_⟩
    -- the id that is free now stands for nothing, and every other for what it did
    rcases eq_or_ne r route with rfl | hr
    · left
      have hgone : (Network.passBack { s with reports := rest } i id r reply).routes r = none :=
        Function.update_self ..
      rw [routedTo, hgone]
      rfl
    · right
      have hold : (Network.passBack { s with reports := rest } i id route reply).routes r
          = s.routes r := Function.update_of_ne hr ..
      rw [routedTo, routedTo, hold]

/-- A response goes back to the client it is for. -/
theorem Orderly.passBack (ho : Orderly site s) (hreports : s.reports = doc :: rest)
    (hread : readReport doc = some (.response route reply))
    (hid : s.routes route = some (some (i, id))) :
    Passes site s (Network.passBack { s with reports := rest } i id route reply) := by
  have hpending := pending_of_response hreports hread
  have hrouted : s.routedTo i route = some id := routedTo_self hid
  have hfetched := ho.fetched_of_routed hrouted
  have hsame : SameMeaning (Network.passBack { s with reports := rest } i id route reply) s :=
    ho.sameMeaning_passBack hpending
  refine ⟨ho.orderly_passBack hpending hid hfetched, fun j => ?_⟩
  have hup := hsame.up j
  rcases eq_or_ne j i with rfl | hj
  · have hitem : s.item j doc = (s.clients j).item site.path (.response id reply) := by
      rw [Network.item, hread]
      simp only [hrouted]
      rfl
    have hself : (Network.passBack { s with reports := rest } j id route reply).clients j
        = (s.clients j).push [.response id reply] := withClient_self
    rw [view_of_fetched hfetched,
      view_of_fetched (s := Network.passBack { s with reports := rest } j id route reply) hfetched,
      hself, Client.filterMap_push, hreports, ← hup]
    rcases hx : (s.clients j).item site.path (.response id reply) with - | x
    · rw [List.filterMap_cons_none (hitem.trans hx), List.filterMap_cons_none hx,
        List.filterMap_nil, List.append_nil]
      exact .refl
    · -- a response writes nothing
      obtain ⟨w, rfl⟩ : ∃ w, x = .ack w := by
        rw [Client.item] at hx
        split_ifs at hx
        obtain ⟨w, -, rfl⟩ := Option.map_eq_some_iff.mp hx
        exact ⟨_, rfl⟩
      rw [List.filterMap_cons_some (hitem.trans hx), List.filterMap_cons_some hx,
        List.filterMap_nil]
      exact .single .pass
  · have hforeign : s.routedTo j route = none := routedTo_of_ne hid hj
    have hitem : s.item j doc = none := by
      rw [Network.item, hread]
      simp only [hforeign]
      split_ifs <;> rfl
    have hclient : (Network.passBack { s with reports := rest } i id route reply).clients j
        = s.clients j := withClient_of_ne hj
    rw [view, view, hclient, hreports, List.filterMap_cons_none hitem, ← hup]
    exact .refl

/-- The client it is for has gone. -/
theorem Orderly.drop (ho : Orderly site s) (hreports : s.reports = doc :: rest)
    (hread : readReport doc = some (.response route reply)) (hgone : s.routes route = some none) :
    Passes site s { s with reports := rest, routes := Function.update s.routes route none } := by
  have hpending := pending_of_response hreports hread
  have hnobody : ∀ j, s.routedTo j route = none := by
    intro j
    rw [routedTo, hgone]
    rfl
  have hsame : SameMeaning
      { s with reports := rest, routes := Function.update s.routes route none } s := by
    refine ⟨fun r hr => (Function.update_of_ne ?_ ..).symm, fun _ _ _ => rfl⟩
    have hnodup := ho.routed
    rw [hpending, List.nodup_cons] at hnodup
    rintro rfl
    exact hnodup.1 hr
  constructor
  · refine ho.shrink hsame rfl (fun _ => rfl) ?_ ?_ (List.Subset.refl _)
      (fun _ => List.Subset.refl _) fun j hj => ⟨hj, rfl, rfl, rfl, fun r => ?_⟩
    · rw [hpending]
      exact List.sublist_cons_self _ _
    · intro j
      have hold := List.filterMap_congr fun r hr => hsame.routedTo hr j
      rw [Network.flight, Network.flight, hpending, List.filterMap_cons_none (hnobody j)]
      exact (List.Subperm.refl _).trans (hold ▸ List.Subperm.refl _)
    · rcases eq_or_ne r route with rfl | hr
      · left
        have hfree : Function.update s.routes r none r = none := Function.update_self ..
        show (Function.update s.routes r none r).join.bind _ = none
        rw [hfree]
        rfl
      · right
        show (Function.update s.routes route none r).join.bind _ = _
        rw [Function.update_of_ne hr]
        rfl
  · intro j
    have hitem : s.item j doc = none := by
      rw [Network.item, hread]
      simp only [hnobody]
      split_ifs <;> rfl
    have hup := hsame.up j
    rw [view, view, hreports, List.filterMap_cons_none hitem, ← hup]
    exact .refl

/-- A response is passed on, or nobody waits for it any more. -/
theorem Orderly.passResponse (ho : Orderly site s) (hreports : s.reports = doc :: rest)
    (hread : readReport doc = some (.response route reply)) :
    Passes site s (Network.pass site { s with reports := rest } (.response route reply)) := by
  have hmem : route ∈ s.pending := by
    rw [pending_of_response hreports hread]
    exact List.mem_cons_self
  rcases hid : s.routes route with - | - | ⟨i, id⟩
  · exact absurd hid (ho.known route hmem)
  · simp only [Network.pass, hid]
    exact ho.drop hreports hread hid
  · simp only [Network.pass, hid]
    exact ho.passBack hreports hread hid

end PassBack

section Lose

theorem lose_routedTo_self (s : Network ι) (i : ι) (r : Json) :
    (s.lose i).routedTo i r = none := by
  show ((s.routes r).map _).join.bind _ = none
  rcases s.routes r with - | - | ⟨j, id⟩
  · rfl
  · rfl
  · by_cases hj : j = i <;> simp [Option.filter, hj]

theorem lose_routedTo_of_ne {j : ι} (h : j ≠ i) (r : Json) :
    (s.lose i).routedTo j r = s.routedTo j r := by
  show ((s.routes r).map _).join.bind _ = (s.routes r).join.bind _
  rcases s.routes r with - | - | ⟨k, id⟩
  · rfl
  · rfl
  · by_cases hk : k = i
    · simp [Option.filter, hk, Ne.symm h]
    · simp [Option.filter, hk]

theorem lose_clients_self : (s.lose i).clients i = (s.clients i).lose := withClient_self

theorem lose_clients_of_ne {j : ι} (h : j ≠ i) : (s.lose i).clients j = s.clients j :=
  withClient_of_ne h

theorem lose_flight_self : (s.lose i).flight i = [] := by
  rw [Network.flight, lose_clients_self, List.filterMap_congr fun r _ => lose_routedTo_self s i r]
  simp [Client.lose]

theorem lose_flight_of_ne {j : ι} (h : j ≠ i) : (s.lose i).flight j = s.flight j := by
  rw [Network.flight, lose_clients_of_ne h,
    List.filterMap_congr fun r _ => lose_routedTo_of_ne h r]
  rfl

/-- What the owner still says to the others is to a lost client what it writes. -/
theorem lose_up : s.reports.filterMap ((s.lose i).item i)
    = (s.reports.filterMap (s.item i)).filter Signal.isWrite := by
  rw [List.filter_filterMap]
  refine List.filterMap_congr fun doc _ => ?_
  rw [Network.item, Network.item]
  rcases readReport doc with - | ⟨v | ⟨route, reply⟩⟩
  · rfl
  · rfl
  · simp only [lose_routedTo_self]
    split_ifs
    · rfl
    · rcases (s.routedTo i route).bind (s.clients i).requested with - | v <;> rfl

/-- A connection is lost, and with it all that was in flight on it. -/
theorem Orderly.lose (ho : Orderly site s) (i : ι) :
    Simulated site s [] (fun j => if j = i then [none] else []) (s.lose i) := by
  have hclients : ∀ j, (s.lose i).clients j = s.clients j ∨
      (j = i ∧ (s.lose i).clients j = (s.clients j).lose) := by
    intro j
    rcases eq_or_ne j i with rfl | hj
    · exact .inr ⟨rfl, lose_clients_self⟩
    · exact .inl (lose_clients_of_ne hj)
  constructor
  · refine { owner := ho.owner, clients := ?_, routed := ho.routed, known := ?_, flight := ?_,
             expected := ?_, calls := ?_, orders := ?_, unfetched := ?_ }
    · intro j
      rcases hclients j with h | ⟨-, h⟩ <;> rw [h]
      · exact ho.clients j
      · exact ho.clients j
    · -- an id of the daemon is in use until the response comes, even if for nobody
      intro r hr hnone
      exact ho.known r hr (Option.map_eq_none_iff.mp hnone)
    · intro j
      rcases eq_or_ne j i with rfl | hj
      · rw [lose_flight_self]
        exact List.nodup_nil
      · rw [lose_flight_of_ne hj]
        exact ho.flight j
    · intro j id hid
      rcases eq_or_ne j i with rfl | hj
      · rw [lose_flight_self] at hid
        cases hid
      · rw [lose_flight_of_ne hj] at hid
        rw [lose_clients_of_ne hj]
        exact ho.expected j id hid
    · intro call hcall j id hrouted
      rcases eq_or_ne j i with rfl | hj
      · rw [lose_routedTo_self] at hrouted
        cases hrouted
      · rw [lose_routedTo_of_ne hj] at hrouted
        rw [lose_clients_of_ne hj]
        exact ho.calls call hcall j id hrouted
    · intro j doc hdoc id value hread
      rcases hclients j with h | ⟨-, h⟩ <;> rw [h] at hdoc ⊢
      · exact ho.orders j doc hdoc id value hread
      · cases hdoc
    · intro j hj
      rcases eq_or_ne j i with rfl | hne
      · rw [lose_clients_self]
        exact ⟨rfl, lose_routedTo_self s j, .inl ⟨rfl, rfl⟩⟩
      · have hold : (s.lose i).fetched j = s.fetched j := Function.update_of_ne hne ..
        obtain ⟨hinbox, hrouted, hstarting⟩ := ho.unfetched j (hold.symm.trans hj)
        rw [lose_clients_of_ne hne]
        exact ⟨hinbox, fun r => (lose_routedTo_of_ne hne r).trans (hrouted r), hstarting⟩
  · intro j
    rcases eq_or_ne j i with rfl | hj
    · have hview : (s.lose j).view site j = ⟨some s.owner.value,
          (s.reports.filterMap (s.item j)).filter Signal.isWrite, s.held, none,
          (s.clients j).cache.lookup site.path⟩ := by
        have hfetched : (s.lose j).fetched j = false := Function.update_self ..
        have hcache : (s.clients j).lose.cache = (s.clients j).cache :=
          (s.clients j).cache.after_lost .null (show (-1 : Int) < 0 by decide)
        rw [view, hfetched, lose_clients_self, hcache, ← lose_up]
        rfl
      rw [hview, if_pos rfl]
      exact .single .cut
    · have hitem : (s.lose i).item j = s.item j := by
        funext doc
        simp only [Network.item, lose_routedTo_of_ne hj, lose_clients_of_ne hj]
      have hview : (s.lose i).view site j = s.view site j := by
        have hold : (s.lose i).fetched j = s.fetched j := Function.update_of_ne hj ..
        rw [view, view, hitem, hold, lose_clients_of_ne hj]
        rfl
      rw [hview, if_neg hj]
      exact .refl

end Lose

/-- The fetch is sent again. -/
theorem Orderly.resume (ho : Orderly site s) (hfetched : s.fetched i = false)
    (hconnected : (s.clients i).connected = false) :
    Passes site s (s.withClient i (s.clients i).resume) := by
  obtain ⟨hinbox, hrouted, ⟨-, hempty⟩ | ⟨h, -⟩⟩ := ho.unfetched i hfetched
  -- a client that is connected has nothing to resume
  swap
  · exact absurd (hconnected.symm.trans h) Bool.false_ne_true
  have hout : (s.clients i).resume.out
      = [requestDoc Word.fetch (restoreFetchParams (site.matcher i) (site.fetchId i))] := by
    show List.map _ _ = _
    rw [ho.clients i]
    rfl
  have hflight : ∀ j, (s.withClient i (s.clients i).resume).flight j = s.flight j := by
    intro j
    rcases eq_or_ne j i with rfl | hj
    · rw [flight_withClient_self, Network.flight, hout, hempty]
      rfl
    · exact flight_withClient_of_ne hj
  have hclients : ∀ j, ((s.withClient i (s.clients i).resume).clients j).registry
      = (s.clients j).registry ∧ ∀ id,
        ((s.withClient i (s.clients i).resume).clients j).requested id
          = (s.clients j).requested id := by
    intro j
    rcases eq_or_ne j i with rfl | hj
    · rw [withClient_self]
      exact ⟨rfl, fun _ => rfl⟩
    · rw [withClient_of_ne hj]
      exact ⟨rfl, fun _ => rfl⟩
  constructor
  · refine { owner := ho.owner, clients := ?_, routed := ho.routed, known := ho.known, flight := ?_,
             expected := ?_, calls := ?_, orders := ?_, unfetched := ?_ }
    · intro j
      rw [(hclients j).1]
      exact ho.clients j
    · intro j
      rw [hflight]
      exact ho.flight j
    · intro j id hid
      rw [hflight] at hid
      rw [(hclients j).2]
      exact ho.expected j id hid
    · intro call hcall j id hid
      rw [(hclients j).2]
      exact ho.calls call hcall j id hid
    · intro j doc hdoc id value hread
      rcases eq_or_ne j i with rfl | hj
      · rw [withClient_self, hout] at hdoc
        obtain rfl := List.mem_singleton.mp hdoc
        cases hread
      · rw [withClient_of_ne hj] at hdoc ⊢
        exact ho.orders j doc hdoc id value hread
    · intro j hj
      rcases eq_or_ne j i with rfl | hne
      · rw [withClient_self]
        exact ⟨hinbox, hrouted, .inr ⟨rfl, _, [], hout, readOrder_fetch _⟩⟩
      · rw [withClient_of_ne hne]
        exact ho.unfetched j hj
  · intro j
    have hitem : (s.withClient i (s.clients i).resume).item j = s.item j := by
      have hrequested : ((s.withClient i (s.clients i).resume).clients j).requested
          = (s.clients j).requested := funext (hclients j).2
      funext doc
      simp only [Network.item, hrequested]
      rfl
    have hview : (s.withClient i (s.clients i).resume).view site j = s.view site j := by
      rcases eq_or_ne j i with rfl | hj
      · have hf : (s.withClient j (s.clients j).resume).fetched j = false := hfetched
        rw [view, view, hitem, hf, hfetched, withClient_self]
        rfl
      · exact view_withClient_of_ne hj
    rw [hview]
    exact .refl

theorem pass_owner (r : Report) : (s.pass site r).owner = s.owner := by
  cases r with
  | value v => rfl
  | response route reply =>
      rw [pass]
      split <;> rfl

/-- The daemon hears from the owner. -/
theorem Orderly.pass (ho : Orderly site s) {doc : Json} {rest : List Json} {r : Report}
    (hreports : s.reports = doc :: rest) (hread : readReport doc = some r) :
    Passes site s (Network.pass site { s with reports := rest } r) := by
  cases r with
  | value v => exact ho.passValue hreports hread
  | response route reply => exact ho.passResponse hreports hread

/-! ### Runs -/

theorem changed_eq_nil {a : NetworkAction ι} (h : step site s a = some t)
    (howner : t.owner = s.owner) : changed site s a = [] := by
  rw [changed, h]
  exact if_pos (congrArg Owner.value howner)

/-- A step in which nothing is said. -/
theorem Simulated.of_passes {a : NetworkAction ι} (hpasses : Passes site s t)
    (h : step site s a = some t) (howner : t.owner = s.owner) (htold : ∀ i, told site i s a = []) :
    Simulated site s (changed site s a) (fun i => told site i s a) t := by
  have hnobody : (fun i => told site i s a) = fun _ => [] := funext htold
  rw [changed_eq_nil h howner, hnobody]
  exact hpasses

/-- **The network is a relay** to every client. -/
theorem step_view {a : NetworkAction ι} (ho : Orderly site s) (hp : Plain site s)
    (hregular : Regular site s a) (h : step site s a = some t) :
    Simulated site s (changed site s a) (fun i => told site i s a) t := by
  cases step_moves h with
  | ask hconnected => exact .of_passes (ho.ask hconnected hregular) h rfl fun _ => rfl
  | skip hout hread => exact .of_passes (ho.skip hout hread) h rfl fun _ => rfl
  | @order i _ _ _ o _ hout hread ht =>
      cases o with
      | fetch =>
          have hpasses := ho.fetch hp hout hread ht
          obtain rfl := Option.some.inj ht
          exact .of_passes hpasses h rfl fun _ => rfl
      | set id value =>
          simp only [Network.order] at ht
          split_ifs at ht with hheld hnew
          · obtain rfl := Option.some.inj ht
            exact .of_passes (ho.refuse hout hread) h rfl fun _ => rfl
          · obtain rfl := Option.some.inj ht
            exact .of_passes (ho.passOn hnew hout hread) h rfl fun _ => rfl
  | @serve call rest hcalls =>
      -- the one step in which the owner says anything
      rw [changed, h]
      refine ho.serve hcalls (Owner.handle_telegram ho.owner (hregular call ?_))
      rw [hcalls]
      rfl
  | ignore hreports hread => exact .of_passes (ho.ignore hreports hread) h rfl fun _ => rfl
  | @pass _ _ r hreports hread =>
      exact .of_passes (ho.pass hreports hread) h (pass_owner r) fun _ => rfl
  | other hfetched hpath => exact .of_passes (ho.other hfetched hpath) h rfl fun _ => rfl
  | receive hinbox =>
      rw [changed_eq_nil h rfl]
      exact ho.receive hp hinbox
  | @lose i _ =>
      have htold : (fun j => told site j s (.lose i)) = fun j => if j = i then [none] else [] := by
        funext j
        exact if_congr eq_comm rfl rfl
      rw [changed_eq_nil h rfl, htold]
      exact ho.lose i
  | resume hlost =>
      exact .of_passes (ho.resume (hp.fetched_eq_false hlost) hlost) h rfl fun _ => rfl

variable {value : Json} {timeout : ℚ} {as : List (NetworkAction ι)}

instance (site : Site ι) (s : Network ι) : ∀ a, Decidable (s.Regular site a)
  | .ask i _ => inferInstanceAs (Decidable ((s.clients i).registry.requests.openRequestCbs.lookup
      ((s.clients i).registry.requests.sid + 1) = none))
  | .serve => inferInstanceAs (Decidable (∀ call ∈ s.calls.head?,
      (setCb s.owner.value call.value).2.value.isNull = true ∨
        ((site.env.writeString (changeNotification site.path
          (setCb s.owner.value call.value).2.value)).length ≤ maxMessageSize ∧
        site.env.socketError (changeNotification site.path
          (setCb s.owner.value call.value).2.value) = none)))
  | .deliver _ _ | .report | .other _ _ | .receive _ | .lose _ | .resume _ => isTrue trivial

end Network

end JetPeer
