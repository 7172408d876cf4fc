/-
JetPeer/Clients.lean

What the clients of a network send, and what they are sent.

A connection begins with the fetch and has no other (`Client.Plain.fetches`),
so the daemon answers it once; and since the owner never removes its state,
every notification of it brings a value.
-/
import JetPeer.Flight

namespace JetPeer

open Runs

def isFetch (doc : Json) : Bool :=
  match readOrder doc with
  | some .fetch => true
  | _ => false

/-- A client to which the daemon has this value to offer. -/
structure Client.Plain (path : String) (held : Option Json) (fetched : Bool) (c : Client) :
    Prop where
  fetches : c.out.countP isFetch + fetched.toNat ≤ 1
  connected : fetched = true → c.connected = true
  notices : ∀ n, .notice n ∈ c.inbox → n.path = path → n.left = some n.value
  unheld : held = none →
    c.cache.lookup path = none ∧ ∀ n, .notice n ∈ c.inbox → n.path ≠ path

namespace Client.Plain

variable {path : String} {held : Option Json} {fetched : Bool} {c : Client} {doc : Json}
  {rest : List Json}

theorem push {ds : List Incoming} (h : c.Plain path held fetched)
    (hds : ∀ n, .notice n ∈ ds → n.path = path → n.left = some n.value ∧ held ≠ none) :
    (c.push ds).Plain path held fetched where
  fetches := h.fetches
  connected := h.connected
  notices := by
    intro n hn hpath
    rcases List.mem_append.mp hn with hn | hn
    · exact h.notices n hn hpath
    · exact (hds n hn hpath).1
  unheld := by
    intro hheld
    obtain ⟨hcache, hinbox⟩ := h.unheld hheld
    refine ⟨hcache, fun n hn hpath => ?_⟩
    rcases List.mem_append.mp hn with hn | hn
    · exact hinbox n hn hpath
    · exact (hds n hn hpath).2 hheld

/-- The daemon has read a telegram that is no fetch. -/
theorem read (h : c.Plain path held fetched) (hout : c.out = doc :: rest)
    (hdoc : isFetch doc = false) : Client.Plain path held fetched { c with out := rest } where
  fetches := by
    have hcount := h.fetches
    rwa [hout, List.countP_cons_of_neg (by rw [hdoc]; exact Bool.false_ne_true)] at hcount
  connected := h.connected
  notices := h.notices
  unheld := h.unheld

/-- The daemon has read the fetch. -/
theorem fetch (h : c.Plain path held fetched) (hout : c.out = doc :: rest)
    (hdoc : isFetch doc = true) :
    fetched = false ∧
      (c.connected = true → Client.Plain path held true { c with out := rest }) := by
  have hcount := h.fetches
  rw [hout, List.countP_cons_of_pos hdoc] at hcount
  cases fetched with
  | true =>
      exact absurd hcount (by simp)
  | false =>
      refine ⟨rfl, fun hconnected => ⟨?_, fun _ => hconnected, h.notices, h.unheld⟩⟩
      rwa [Bool.toNat_false, Nat.add_zero] at hcount

theorem ask (h : c.Plain path held fetched) (value : Json) :
    (c.ask path value).Plain path held fetched where
  fetches := by
    have hdoc : isFetch (withId (requestDoc Word.set
        ((Json.null.set Word.path (.string path)).set Word.value value))
          (c.registry.requests.sid + 1)) = false := by
      rw [isFetch, readOrder_set]
    rw [Client.ask, List.countP_append, List.countP_singleton, hdoc]
    exact h.fetches
  connected := h.connected
  notices := h.notices
  unheld := h.unheld

/-- The daemon has a new value. -/
theorem hold (h : c.Plain path held fetched) (v : Json) : c.Plain path (some v) fetched :=
  ⟨h.fetches, h.connected, h.notices, nofun⟩

/-- A client reads a notification. -/
theorem notice {n : Notice} {ds : List Incoming} (h : c.Plain path held fetched)
    (hinbox : c.inbox = .notice n :: ds) :
    Client.Plain path held fetched
      { c with inbox := ds, cache := c.cache.after n.params 0 } where
  fetches := h.fetches
  connected := h.connected
  notices := fun m hm => h.notices m (hinbox ▸ List.mem_cons_of_mem _ hm)
  unheld := by
    intro hheld
    obtain ⟨hcache, hothers⟩ := h.unheld hheld
    refine ⟨?_, fun m hm => hothers m (hinbox ▸ List.mem_cons_of_mem _ hm)⟩
    rw [Cache.lookup_after, if_neg (hothers n (hinbox ▸ List.mem_cons_self))]
    exact hcache

theorem response {id : UInt32} {reply : ResponseDoc} {ds : List Incoming}
    {registry : Registry} (h : c.Plain path held fetched)
    (hinbox : c.inbox = .response id reply :: ds) :
    Client.Plain path held fetched { c with inbox := ds, registry := registry } where
  fetches := h.fetches
  connected := h.connected
  notices := fun m hm => h.notices m (hinbox ▸ List.mem_cons_of_mem _ hm)
  unheld := fun hheld => ⟨(h.unheld hheld).1, fun m hm =>
    (h.unheld hheld).2 m (hinbox ▸ List.mem_cons_of_mem _ hm)⟩

/-- A lost connection leaves the cache as it is. -/
theorem lose (h : c.Plain path held fetched) : c.lose.Plain path held false where
  fetches := Nat.zero_le _
  connected := nofun
  notices := nofun
  unheld := by
    intro hheld
    refine ⟨?_, nofun⟩
    show (c.cache.after .null (-1)).lookup path = none
    rw [Cache.after_lost _ _ (by decide)]
    exact (h.unheld hheld).1

/-- Where there is one fetcher, one fetch is sent. -/
theorem resume {fetchId : FetchId} {f : Fetcher} (h : c.Plain path held false)
    (hentries : c.registry.tables.fetchers.entries = [⟨fetchId, f⟩]) :
    c.resume.Plain path held false where
  fetches := by
    show (List.map _ _).countP isFetch ≤ 1
    rw [hentries]
    exact List.countP_le_length
  connected := nofun
  notices := h.notices
  unheld := h.unheld

end Client.Plain

namespace Network

variable {ι : Type*} [DecidableEq ι] {site : Site ι} {s t : Network ι} {i : ι}

def Plain (site : Site ι) (s : Network ι) : Prop :=
  ∀ i, (s.clients i).Plain site.path s.held (s.fetched i)

theorem Plain.withClient {c : Client} (hp : Plain site s)
    (hc : c.Plain site.path s.held (s.fetched i)) : Plain site (s.withClient i c) := by
  intro j
  rcases eq_or_ne j i with rfl | hj
  · rw [withClient_self]
    exact hc
  · rw [withClient_of_ne hj]
    exact hp j

/-- What the daemon hears from the owner. -/
theorem Plain.pass (hp : Plain site s) (r : Report) : Plain site (s.pass site r) := by
  cases r with
  | value v =>
      obtain ⟨n, -, hleft, hvalue, hclients⟩ := clients_passValue site s v
      intro i
      rw [hclients]
      split_ifs
      · refine ((hp i).hold v).push fun m hm _ => ?_
        cases List.mem_singleton.mp hm
        exact ⟨hleft.trans (congrArg some hvalue.symm), Option.some_ne_none v⟩
      · exact (hp i).hold v
  | response route reply =>
      rcases hid : s.routes route with - | - | ⟨i, id⟩
      · simp only [Network.pass, hid]
        exact hp
      · simp only [Network.pass, hid]
        exact hp
      · simp only [Network.pass, hid]
        exact hp.withClient ((hp i).push nofun)

/-- The client whose fetch has been read is the only one that has changed. -/
theorem Plain.fetch {c : Client} (hp : Plain site s) (hc : c.Plain site.path s.held true) :
    Plain site { s.withClient i c with fetched := Function.update s.fetched i true } := by
  intro j
  show ((s.withClient i c).clients j).Plain site.path s.held (Function.update s.fetched i true j)
  rcases eq_or_ne j i with rfl | hj
  · rw [withClient_self, Function.update_self]
    exact hc
  · rw [withClient_of_ne hj, Function.update_of_ne hj]
    exact hp j

theorem Plain.lose (hp : Plain site s) (i : ι) : Plain site (s.lose i) := by
  intro j
  show ((s.withClient i (s.clients i).lose).clients j).Plain site.path s.held
    (Function.update s.fetched i false j)
  rcases eq_or_ne j i with rfl | hj
  · rw [withClient_self, Function.update_self]
    exact (hp j).lose
  · rw [withClient_of_ne hj, Function.update_of_ne hj]
    exact hp j

omit [DecidableEq ι] in
/-- A client without a connection has not fetched. -/
theorem Plain.fetched_eq_false (hp : Plain site s) (h : (s.clients i).connected = false) :
    s.fetched i = false := by
  by_contra hf
  have hconnected := (hp i).connected (Bool.not_eq_false _ ▸ hf)
  rw [h] at hconnected
  cases hconnected

theorem Plain.step {a : NetworkAction ι} (hp : Plain site s) (ho : Orderly site s)
    (h : step site s a = some t) : Plain site t := by
  cases step_moves h with
  | @ask i value _ => exact hp.withClient ((hp i).ask value)
  | @skip i _ _ _ hout hread => exact hp.withClient ((hp i).read hout (by rw [isFetch, hread]))
  | @order i _ _ _ o _ hout hread ht =>
      cases o with
      | fetch =>
          obtain rfl := Option.some.inj ht
          obtain ⟨hfetched, hplain⟩ := (hp i).fetch hout (by rw [isFetch, hread])
          -- what asks for a fetch is connected
          obtain ⟨-, -, ⟨-, hempty⟩ | ⟨hconnected, -⟩⟩ := ho.unfetched i hfetched
          · rw [hout] at hempty
            cases hempty
          · refine hp.fetch ((hplain hconnected).push fun n hn _ => ?_)
            obtain ⟨v, hv, hn⟩ := List.mem_map.mp hn
            cases hn
            rw [Option.mem_toList.mp hv]
            exact ⟨rfl, Option.some_ne_none v⟩
      | set id value =>
          have hrest := (hp i).read hout (by rw [isFetch, hread])
          simp only [Network.order] at ht
          split_ifs at ht
          · obtain rfl := Option.some.inj ht
            exact hp.withClient (hrest.push nofun)
          · obtain rfl := Option.some.inj ht
            exact hp.withClient hrest
  | serve => exact hp
  | @ignore _ rest _ _ => exact hp
  | @pass _ rest r _ _ =>
      have hp' : Plain site { s with reports := rest } := hp
      exact hp'.pass r
  | @other i n _ hpath =>
      refine hp.withClient ((hp i).push fun m hm hm' => ?_)
      cases List.mem_singleton.mp hm
      exact absurd hm' hpath
  | @receive i d rest hinbox =>
      cases d with
      | notice n =>
          rw [@Client.handle_notice { s.clients i with inbox := rest } _ _ _ (site.isInt i)
            (ho.lookup_fetchers i) rfl]
          exact hp.withClient ((hp i).notice hinbox)
      | response id reply =>
          obtain ⟨value, hvalue⟩ := ho.requested_of_inbox hinbox
          obtain ⟨k, hk, -⟩ := Option.bind_eq_some_iff.mp hvalue
          rw [@Client.handle_response { s.clients i with inbox := rest } _ _ reply k hk]
          exact hp.withClient ((hp i).response hinbox)
  | @lose i _ => exact hp.lose i
  | @resume i hconnected =>
      have hfetched := hp.fetched_eq_false hconnected
      refine hp.withClient ?_
      have hplain := hp i
      rw [hfetched] at hplain ⊢
      exact hplain.resume (ho.clients i)

end Network

end JetPeer
