/-
JetPeer/Deferred.lean

The error of a failed send, on its way to the callback.

`execute` does not invoke the callback of a request that could not be sent.
It leaves a notifier behind, whose lambda captures `this` and the exception,
and the event loop runs it later: it reads `m_id` through the captured pointer
and hands a response with this id to `handleResult`.  The request objects of
the asynchronous operations are locals; they are gone by then, and their
storage may be in use for something else, for a further request as well as for
anything on the stack.

So the request layer gets storage: every request object has a place, and its
`m_id` lies in the cell there.  As long as the object exists, nothing else is
put into its place and the cell has its id (`Intact`).  The notifier reports
to the right request where the cell still has the id when it runs
(`StorageKept`).
-/
import JetPeer.Accounting

namespace JetPeer

open Runs

/-! ### Storage -/

/-- The request layer with the storage of the request objects. -/
structure Storage where
  layer : Layer := {}
  /-- Where each request object lies, or has lain. -/
  place : ℕ → ℕ := fun _ => 0
  /-- What is read at an address as `m_id`. -/
  cells : ℕ → UInt32 := fun _ => 0

inductive StorageAction where
  /-- A request object is constructed at an address and enters `execute`. -/
  | execute (sync : Bool) (address : ℕ)
  /-- The storage there is used for anything else. -/
  | write (address : ℕ) (value : UInt32)
  /-- The event loop runs the notifier in the entry `key`. -/
  | notify (key : UInt32)
  /-- All other steps of the request layer. -/
  | layer (a : LayerAction)

namespace Storage

/-- No existing request object lies there. -/
def Free (s : Storage) (address : ℕ) : Prop :=
  ∀ r < s.layer.issues.length, ∀ i ∈ s.layer.issues[r]?, i.Alive → s.place r ≠ address

instance (s : Storage) (address : ℕ) : Decidable (s.Free address) :=
  inferInstanceAs (Decidable (∀ r < s.layer.issues.length, ∀ i ∈ s.layer.issues[r]?, _))

end Storage

/-- The steps that have actions of their own here. -/
def LayerAction.UsesStorage : LayerAction → Bool
  | .execute _ | .notify .. => true
  | _ => false

/-- One step of the layer with storage. -/
def storageStep (s : Storage) : StorageAction → Option Storage
  | .execute sync address =>
      if s.Free address then
        (layerStep s.layer (.execute sync)).map fun l =>
          { layer := l
            place := Function.update s.place s.layer.issues.length address
            cells := Function.update s.cells address (s.layer.table.sid + 1) }
      else none
  | .write address value =>
      if s.Free address then
        some { s with cells := Function.update s.cells address value }
      else none
  | .notify key =>
      -- the id the lambda reads through `this`
      (s.layer.table.notifier key).bind fun n =>
        (layerStep s.layer (.notify key (s.cells (s.place n.request)))).map fun l =>
          { s with layer := l }
  | .layer a =>
      if a.UsesStorage then none else (layerStep s.layer a).map fun l => { s with layer := l }

def storageMachine : Machine Storage StorageAction := ⟨storageStep⟩

/-! ### The condition -/

/-- A request is issued under an id that has no entry, and that no existing
request object has. -/
def FreshKey (s : Layer) : Prop :=
  s.table.openRequestCbs.lookup (s.table.sid + 1) = none ∧
    ∀ i ∈ s.issues, i.Alive → i.id ≠ s.table.sid + 1

/-- Ids are fresh, and the storage of a request still has its id when its
notifier runs. -/
def StorageKept (s : Storage) : StorageAction → Prop
  | .execute .. => FreshKey s.layer
  | .notify key => ∀ n ∈ s.layer.table.notifier key,
      s.layer.idOf n.request = some (s.cells (s.place n.request))
  | _ => True

theorem FreshKey.freshId {s : Layer} (h : FreshKey s) (sync : Bool) :
    FreshId s (.execute sync) := by
  refine ⟨by simp [RequestTable.callback, h.1], fun i hi hsync hdes => ?_⟩
  exact h.2 i hi (.inr ⟨hsync, hdes⟩)

/-! ### Steps of the layer -/

/-- What a step does to the layer: nothing, or it is a step of the layer, with
the id the notifier reads. -/
theorem storageStep_cases {s u : Storage} {a : StorageAction} (h : storageStep s a = some u) :
    (u.layer = s.layer ∧ ∃ address value, a = .write address value) ∨
      ∃ b, layerStep s.layer b = some u.layer ∧
        ((∃ sync address, a = .execute sync address ∧ b = .execute sync) ∨
          (∃ key n, a = .notify key ∧ s.layer.table.notifier key = some n ∧
            b = .notify key (s.cells (s.place n.request))) ∨
          (a = .layer b ∧ b.UsesStorage = false)) := by
  cases a with
  | execute sync address =>
      obtain ⟨-, h⟩ := Option.ite_none_right_eq_some.mp h
      obtain ⟨l, hl, rfl⟩ := Option.map_eq_some_iff.mp h
      exact .inr ⟨_, hl, .inl ⟨sync, address, rfl, rfl⟩⟩
  | write address value =>
      obtain ⟨-, h⟩ := Option.ite_none_right_eq_some.mp h
      obtain rfl := Option.some.inj h
      exact .inl ⟨rfl, address, value, rfl⟩
  | notify key =>
      obtain ⟨n, hn, h⟩ := Option.bind_eq_some_iff.mp h
      obtain ⟨l, hl, rfl⟩ := Option.map_eq_some_iff.mp h
      exact .inr ⟨_, hl, .inr (.inl ⟨key, n, rfl, hn, rfl⟩)⟩
  | layer b =>
      obtain ⟨hb, h⟩ := Option.ite_none_left_eq_some.mp h
      obtain ⟨l, hl, rfl⟩ := Option.map_eq_some_iff.mp h
      exact .inr ⟨b, hl, .inr (.inr ⟨rfl, Bool.eq_false_iff.mpr hb⟩)⟩

/-- A guarded step keeps the law of the layer. -/
theorem layerInv_storageStep {s u : Storage} {a : StorageAction} (h : LayerInv s.layer)
    (hG : StorageKept s a) (hstep : storageMachine.step s a = some u) : LayerInv u.layer := by
  rcases storageStep_cases hstep with ⟨hu, -⟩ | ⟨b, hb, hab⟩
  · rwa [hu]
  · refine layerStep_inv h ?_ hb
    rcases hab with ⟨sync, address, rfl, rfl⟩ | ⟨key, n, -, -, rfl⟩ | ⟨-, hne⟩
    · exact FreshKey.freshId hG sync
    · trivial
    · cases b with
      | execute sync => cases hne
      | _ => trivial

/-! ### What a step does to the request objects -/

/-- From `i` to `i'` in a step, as the `r`-th request. -/
structure Ages (a : LayerAction) (r : ℕ) (i i' : Issue) : Prop where
  sameId : i'.id = i.id
  alive : i'.Alive → i.Alive
  sending : i'.phase = .sending → i.phase = .sending
  failed : ∀ e, i'.phase = .failed e → i.phase = .failed e ∨ a = .sendThrew r e
  threw : ∀ e, a = .sendThrew r e → i.phase = .sending ∧ i'.phase ≠ .sending

section

variable {s u : Layer} {a : LayerAction} {r : ℕ} {i j : Issue}

theorem Ages.refl (h : ∀ e, a ≠ .sendThrew r e) : Ages a r i i :=
  ⟨rfl, id, id, fun _ => .inl, fun e he => absurd he (h e)⟩

/-- The `r`-th request is replaced, and no other. -/
theorem ages_set {issues : List Issue} (hi : issues[r]? = some i) (h : Ages a r i j)
    (ha : ∀ r' e, a = .sendThrew r' e → r' = r) :
    ∀ r' i', (issues.set r j)[r']? = some i' → ∃ k, issues[r']? = some k ∧ Ages a r' k i' := by
  intro r' i' hi'
  by_cases hr : r = r'
  · subst hr
    rw [List.getElem?_set_self (List.getElem?_eq_some_iff.mp hi).1] at hi'
    obtain rfl := Option.some.inj hi'
    exact ⟨i, hi, h⟩
  · rw [List.getElem?_set_ne hr] at hi'
    exact ⟨i', hi', Ages.refl fun e he => hr (ha r' e he).symm⟩

theorem ages_same (h : ∀ r e, a ≠ .sendThrew r e) (hissues : u.issues = s.issues) :
    u.issues.length = s.issues.length ∧
      ∀ r i', u.issues[r]? = some i' → ∃ k, s.issues[r]? = some k ∧ Ages a r k i' := by
  rw [hissues]
  exact ⟨rfl, fun r i' hi' => ⟨i', hi', Ages.refl (h r)⟩⟩

theorem issues_handleResult (data : Json) : (s.handleResult data).issues = s.issues := by
  rcases s.handleResult_cases data with hs | ⟨_, _, -, -, hs⟩ <;> rw [hs]

theorem layerStep_issues (h : layerStep s a = some u) :
    (∃ sync, a = .execute sync ∧ u.issues = s.issues ++ [{ id := s.table.sid + 1, sync := sync }]) ∨
      (u.issues.length = s.issues.length ∧
        ∀ r i', u.issues[r]? = some i' → ∃ k, s.issues[r]? = some k ∧ Ages a r k i') := by
  cases layerStep_turn h with
  | execute sync => exact .inl ⟨sync, rfl, rfl⟩
  | sent hi hphase =>
      refine .inr ⟨List.length_set, ages_set hi ?_ fun _ _ h => (nomatch h)⟩
      exact ⟨rfl, fun _ => .inl (by rw [hphase]; exact nofun), fun h => (nomatch h),
        fun _ h => (nomatch h), fun _ h => (nomatch h)⟩
  | sendThrew e hi hphase =>
      refine .inr ⟨List.length_set,
        ages_set hi ⟨rfl, fun _ => .inl ?_, fun h => (nomatch h), ?_, ?_⟩ ?_⟩
      · rw [hphase]
        exact nofun
      · rintro _ ⟨⟩
        exact .inr rfl
      · exact fun _ _ => ⟨hphase, nofun⟩
      · rintro _ _ ⟨⟩
        rfl
  | installNotifier hi hphase =>
      refine .inr ⟨List.length_set, ages_set hi ?_ fun _ _ h => (nomatch h)⟩
      exact ⟨rfl, fun _ => .inl (by rw [hphase]; exact nofun), fun h => (nomatch h),
        fun _ h => (nomatch h), fun _ h => (nomatch h)⟩
  | notify id _ => exact .inr (ages_same (fun _ _ h => (nomatch h)) (issues_handleResult _))
  | handleResult ms => exact .inr (ages_same (fun _ _ h => (nomatch h)) (issues_handleResult _))
  | invoke _ => exact .inr (ages_same (fun _ _ h => (nomatch h)) rfl)
  | clear => exact .inr (ages_same (fun _ _ h => (nomatch h)) rfl)
  | destroy hi hsync hdestroyed _ =>
      refine .inr ⟨List.length_set, ages_set hi ?_ fun _ _ h => (nomatch h)⟩
      exact ⟨rfl, fun _ => .inr ⟨hsync, hdestroyed⟩, id, fun _ => .inl, fun _ h => (nomatch h)⟩

/-- A callback or a notifier in the table was there before, or has just been
entered. -/
theorem layerStep_table (h : layerStep s a = some u) :
    (∃ sync, a = .execute sync ∧ u.table = s.table.enter s.issues.length) ∨
      (∃ r i e, a = .installNotifier r ∧ s.issues[r]? = some i ∧ i.phase = .failed e ∧
        u.table = s.table.installNotifier i.id ⟨r, e⟩) ∨
      (∀ id, (∀ r, u.table.callback id = some r → s.table.callback id = some r) ∧
        ∀ n, u.table.notifier id = some n → s.table.notifier id = some n) := by
  -- erasing an entry leaves the others
  have herase : ∀ (t : RequestTable ℕ) j id,
      (∀ r, (t.erase j).callback id = some r → t.callback id = some r) ∧
        ∀ n, (t.erase j).notifier id = some n → t.notifier id = some n := by
    intro t j id
    by_cases hid : id = j
    · subst hid
      simp
    · rw [RequestTable.callback_erase_of_ne hid, RequestTable.notifier_erase_of_ne hid]
      exact ⟨fun _ h => h, fun _ h => h⟩
  have hresult : ∀ data id,
      (∀ r, (s.handleResult data).table.callback id = some r → s.table.callback id = some r) ∧
        ∀ n, (s.handleResult data).table.notifier id = some n → s.table.notifier id = some n := by
    intro data id
    rcases s.handleResult_cases data with hs | ⟨j, _, -, -, hs⟩ <;> rw [hs]
    · exact ⟨fun _ h => h, fun _ h => h⟩
    · exact herase s.table j id
  cases layerStep_turn h with
  | execute sync => exact .inl ⟨sync, rfl, rfl⟩
  | @installNotifier r i e hi hphase => exact .inr (.inl ⟨r, i, e, rfl, hi, hphase, rfl⟩)
  | notify id _ => exact .inr (.inr (hresult _))
  | handleResult ms => exact .inr (.inr (hresult _))
  | clear => exact .inr (.inr fun id => by simp)
  | @destroy r i _ _ _ _ => exact .inr (.inr (herase s.table i.id))
  | _ => exact .inr (.inr fun id => ⟨fun _ h => h, fun _ h => h⟩)

/-- What was invoked stays so, and what a handler is about to invoke is
invoked next or later. -/
theorem layerStep_handed (h : layerStep s a = some u) {d : ℕ × Json}
    (hd : (some d.1, d.2) ∈ s.handlers ∨ d ∈ s.invoked) :
    (some d.1, d.2) ∈ u.handlers ∨ d ∈ u.invoked := by
  have hresult : ∀ data, (some d.1, d.2) ∈ (s.handleResult data).handlers ∨
      d ∈ (s.handleResult data).invoked := by
    intro data
    rcases s.handleResult_cases data with hs | ⟨_, _, -, -, hs⟩ <;> rw [hs]
    · exact hd
    · exact hd.imp_left (List.mem_append_left _)
  cases layerStep_turn h with
  | notify id _ => exact hresult _
  | handleResult ms => exact hresult _
  | @invoke n cb data hn =>
      rcases hd with hd | hd
      · -- the handler that goes on is this one or leaves it alone
        by_cases hthis : (some d.1, d.2) = (cb, data)
        · obtain ⟨rfl, rfl⟩ := Prod.mk.inj hthis
          exact .inr (List.mem_append_right _ (List.mem_singleton.mpr rfl))
        · refine .inl ?_
          obtain ⟨hlt, hget⟩ := List.getElem?_eq_some_iff.mp hn
          have hperm := (List.getElem_cons_eraseIdx_perm hlt).mem_iff.mpr hd
          rw [hget] at hperm
          exact (List.mem_cons.mp hperm).resolve_left hthis
      · exact .inr (List.mem_append_left _ hd)
  | clear => exact hd.imp_right (List.mem_append_left _)
  | _ => exact hd

end

/-! ### The storage of an existing object -/

/-- Existing request objects lie apart, and their ids are in their cells. -/
structure Intact (s : Storage) : Prop where
  stored : ∀ r i, s.layer.issues[r]? = some i → i.Alive → s.cells (s.place r) = i.id
  apart : ∀ r r' i i', s.layer.issues[r]? = some i → i.Alive → s.layer.issues[r']? = some i' →
    i'.Alive → s.place r = s.place r' → r = r'

theorem Intact.of_ages {s : Storage} {l : Layer} {a : LayerAction} (h : Intact s)
    (hages : ∀ r i', l.issues[r]? = some i' → ∃ i, s.layer.issues[r]? = some i ∧ Ages a r i i') :
    Intact { s with layer := l } where
  stored := by
    intro r i' hi' halive
    obtain ⟨i, hi, hage⟩ := hages r i' hi'
    rw [hage.sameId]
    exact h.stored r i hi (hage.alive halive)
  apart := by
    intro r r' i i' hi halive hi' halive' hplace
    obtain ⟨j, hj, hage⟩ := hages r i hi
    obtain ⟨j', hj', hage'⟩ := hages r' i' hi'
    exact h.apart r r' j j' hj (hage.alive halive) hj' (hage'.alive halive') hplace

theorem Intact.step {s u : Storage} {a : StorageAction} (h : Intact s)
    (hstep : storageMachine.step s a = some u) : Intact u := by
  change storageStep s a = some u at hstep
  cases a with
  | execute sync address =>
      obtain ⟨hfree, hstep⟩ := Option.ite_none_right_eq_some.mp hstep
      obtain rfl := Option.some.inj hstep
      refine ⟨fun r i hi halive => ?_, fun r r' i i' hi halive hi' halive' hplace => ?_⟩
      · rcases getElem?_concat_cases hi with ⟨hlt, hold⟩ | ⟨rfl, rfl⟩
        · show Function.update s.cells address _ (Function.update s.place _ address r) = i.id
          rw [Function.update_of_ne hlt.ne, Function.update_of_ne (hfree r hlt i hold halive)]
          exact h.stored r i hold halive
        · show Function.update s.cells address _ (Function.update s.place _ address _) = _
          rw [Function.update_self, Function.update_self]
      · change Function.update s.place _ address r = Function.update s.place _ address r' at hplace
        rcases getElem?_concat_cases hi with ⟨hlt, hold⟩ | ⟨rfl, -⟩ <;>
          rcases getElem?_concat_cases hi' with ⟨hlt', hold'⟩ | ⟨rfl, -⟩
        · -- two old objects lie apart, and the new one lies apart from any old one
          rw [Function.update_of_ne hlt.ne, Function.update_of_ne hlt'.ne] at hplace
          exact h.apart r r' i i' hold halive hold' halive' hplace
        · rw [Function.update_of_ne hlt.ne, Function.update_self] at hplace
          exact absurd hplace (hfree r hlt i hold halive)
        · rw [Function.update_of_ne hlt'.ne, Function.update_self] at hplace
          exact absurd hplace.symm (hfree r' hlt' i' hold' halive')
        · rfl
  | write address value =>
      obtain ⟨hfree, hstep⟩ := Option.ite_none_right_eq_some.mp hstep
      obtain rfl := Option.some.inj hstep
      refine ⟨fun r i hi halive => ?_, h.apart⟩
      have hlt := (List.getElem?_eq_some_iff.mp hi).1
      show Function.update s.cells address value (s.place r) = i.id
      rw [Function.update_of_ne (hfree r hlt i hi halive)]
      exact h.stored r i hi halive
  | notify key =>
      obtain ⟨n, -, hstep⟩ := Option.bind_eq_some_iff.mp hstep
      obtain ⟨l, hl, rfl⟩ := Option.map_eq_some_iff.mp hstep
      rcases layerStep_issues hl with ⟨_, h', -⟩ | ⟨-, hages⟩
      · cases h'
      · exact h.of_ages hages
  | layer b =>
      obtain ⟨hb, hstep⟩ := Option.ite_none_left_eq_some.mp hstep
      obtain ⟨l, hl, rfl⟩ := Option.map_eq_some_iff.mp hstep
      rcases layerStep_issues hl with ⟨_, rfl, -⟩ | ⟨-, hages⟩
      · exact absurd rfl hb
      · exact h.of_ages hages

theorem intact_init : Intact {} := ⟨fun _ _ h => (nomatch h), fun _ _ _ _ h => (nomatch h)⟩

/-- **A notifier reads the right id as long as its request object exists**, as
it does in `executeSync`. -/
theorem storageKept_of_alive {as : List StorageAction} {s : Storage} {key : UInt32}
    (h : storageMachine.Run Machine.Always {} as s)
    (halive : ∀ n ∈ s.layer.table.notifier key,
      ∃ i, s.layer.issues[n.request]? = some i ∧ i.Alive) :
    StorageKept s (.notify key) := by
  have hintact : Intact s := h.invariant intact_init fun _ _ _ ht _ hstep => ht.step hstep
  intro n hn
  obtain ⟨i, hi, halive⟩ := halive n hn
  rw [Layer.idOf_of_getElem? hi, hintact.stored n.request i hi halive]

/-! ### Where a notifier comes from -/

/-- What is known of the notifiers, when `T r e` says that the send of request
`r` threw `e`. -/
structure Notified (T : ℕ → JsonrpcException → Prop) (s : Layer) : Prop where
  failed : ∀ r i e, s.issues[r]? = some i → i.phase = .failed e → T r e
  begun : ∀ r e, T r e → ∃ i, s.issues[r]? = some i ∧ i.phase ≠ .sending
  once : ∀ r e e', T r e → T r e' → e = e'
  own : ∀ key n, s.table.notifier key = some n → s.idOf n.request = some key
  error : ∀ key n, s.table.notifier key = some n → T n.request n.error
  addressee : ∀ key n r, s.table.notifier key = some n → s.table.callback key = some r →
    r = n.request
  alive : ∀ r i r', s.issues[r]? = some i → i.Alive → s.table.callback i.id = some r' → r' = r

section

variable {T : ℕ → JsonrpcException → Prop} {s u : Layer} {a : LayerAction}

/-- A send throws while the request is being sent, and once. -/
theorem notified_threw (h : Notified T s) (hlen : u.issues.length = s.issues.length)
    (hages : ∀ r i', u.issues[r]? = some i' → ∃ i, s.issues[r]? = some i ∧ Ages a r i i')
    {r : ℕ} {e : JsonrpcException} (ha : a = .sendThrew r e) (hr : r < s.issues.length) :
    (∀ e', ¬ T r e') ∧ ∃ i, u.issues[r]? = some i ∧ i.phase ≠ .sending := by
  obtain ⟨i', hi'⟩ : ∃ i', u.issues[r]? = some i' :=
    ⟨_, List.getElem?_eq_getElem (hlen.symm ▸ hr)⟩
  obtain ⟨i, hi, hage⟩ := hages r i' hi'
  obtain ⟨hsending, hafter⟩ := hage.threw e ha
  refine ⟨fun e' he' => ?_, i', hi', hafter⟩
  obtain ⟨j, hj, hbegun⟩ := h.begun r e' he'
  obtain rfl := Option.some.inj (hi.symm.trans hj)
  exact hbegun hsending

theorem idOf_of_ages (hlen : u.issues.length = s.issues.length)
    (hages : ∀ r i', u.issues[r]? = some i' → ∃ i, s.issues[r]? = some i ∧ Ages a r i i')
    {r : ℕ} {id : UInt32} (h : s.idOf r = some id) : u.idOf r = some id := by
  have hlt := Layer.lt_of_idOf h
  obtain ⟨i', hi'⟩ : ∃ i', u.issues[r]? = some i' :=
    ⟨_, List.getElem?_eq_getElem (hlen.symm ▸ hlt)⟩
  obtain ⟨i, hi, hage⟩ := hages r i' hi'
  rw [Layer.idOf_of_getElem? hi] at h
  rw [Layer.idOf_of_getElem? hi', hage.sameId, h]

/-- A step that issues no request. -/
theorem Notified.of_ages (h : Notified T s) (hstep : layerStep s a = some u)
    (hlen : u.issues.length = s.issues.length)
    (hages : ∀ r i', u.issues[r]? = some i' → ∃ i, s.issues[r]? = some i ∧ Ages a r i i') :
    Notified (fun r e => T r e ∨ a = .sendThrew r e) u := by
  -- a send throws for a request that is there
  have hold : ∀ r e, a = .sendThrew r e → r < s.issues.length := by
    rintro r e rfl
    cases layerStep_turn hstep with
    | sendThrew _ hi _ => exact (List.getElem?_eq_some_iff.mp hi).1
  have hid : ∀ r id, s.idOf r = some id → u.idOf r = some id := fun r id =>
    idOf_of_ages hlen hages
  have htable : (∃ r i e, a = .installNotifier r ∧ s.issues[r]? = some i ∧ i.phase = .failed e ∧
        u.table = s.table.installNotifier i.id ⟨r, e⟩) ∨
      ∀ id, (∀ r, u.table.callback id = some r → s.table.callback id = some r) ∧
        ∀ n, u.table.notifier id = some n → s.table.notifier id = some n := by
    rcases layerStep_table hstep with ⟨sync, rfl, -⟩ | h
    · obtain rfl := Option.some.inj hstep
      rw [List.length_append, List.length_singleton] at hlen
      omega
    · exact h
  -- no callback is new
  have hcb : ∀ id r, u.table.callback id = some r → s.table.callback id = some r := by
    rcases htable with ⟨r, i, e, -, -, -, ht⟩ | ht
    · intro id r hr
      rwa [ht, RequestTable.callback_installNotifier] at hr
    · exact fun id => (ht id).1
  -- a notifier was there before, or is that of a request that still exists
  have hn : ∀ key n, u.table.notifier key = some n → s.table.notifier key = some n ∨
      ∃ i, s.issues[n.request]? = some i ∧ i.phase = .failed n.error ∧ key = i.id := by
    intro key n hn
    rcases htable with ⟨r, i, e, -, hi, hphase, ht⟩ | ht
    · rw [ht] at hn
      by_cases hkey : key = i.id
      · subst hkey
        rw [RequestTable.notifier_installNotifier_self] at hn
        obtain rfl := Option.some.inj hn
        exact .inr ⟨i, hi, hphase, rfl⟩
      · rw [RequestTable.notifier_installNotifier_of_ne _ hkey] at hn
        exact .inl hn
    · exact .inl ((ht key).2 n hn)
  refine ⟨?_, ?_, ?_, ?_, ?_, ?_, ?_⟩
  · intro r i' e hi' hphase
    obtain ⟨i, hi, hage⟩ := hages r i' hi'
    exact (hage.failed e hphase).imp_left (h.failed r i e hi)
  · rintro r e (hT | ha)
    · obtain ⟨i, hi, hbegun⟩ := h.begun r e hT
      obtain ⟨i', hi'⟩ : ∃ i', u.issues[r]? = some i' :=
        ⟨_, List.getElem?_eq_getElem (hlen.symm ▸ (List.getElem?_eq_some_iff.mp hi).1)⟩
      obtain ⟨j, hj, hage⟩ := hages r i' hi'
      obtain rfl := Option.some.inj (hi.symm.trans hj)
      exact ⟨i', hi', fun hs => hbegun (hage.sending hs)⟩
    · exact (notified_threw h hlen hages ha (hold r e ha)).2
  · rintro r e e' (hT | ha) (hT' | ha')
    · exact h.once r e e' hT hT'
    · exact absurd hT ((notified_threw h hlen hages ha' (hold r e' ha')).1 e)
    · exact absurd hT' ((notified_threw h hlen hages ha (hold r e ha)).1 e')
    · exact (LayerAction.sendThrew.inj (ha.symm.trans ha')).2
  · intro key n hkey
    rcases hn key n hkey with hkey | ⟨i, hi, -, rfl⟩
    · exact hid _ _ (h.own key n hkey)
    · exact hid _ _ (Layer.idOf_of_getElem? hi)
  · intro key n hkey
    rcases hn key n hkey with hkey | ⟨i, hi, hphase, -⟩
    · exact .inl (h.error key n hkey)
    · exact .inl (h.failed _ i _ hi hphase)
  · intro key n r hkey hr
    rcases hn key n hkey with hkey | ⟨i, hi, hphase, rfl⟩
    · exact h.addressee key n r hkey (hcb key r hr)
    · refine h.alive _ i r hi (.inl ?_) (hcb _ r hr)
      rw [hphase]
      exact nofun
  · intro r i' r' hi' halive hr'
    obtain ⟨i, hi, hage⟩ := hages r i' hi'
    rw [hage.sameId] at hr'
    exact h.alive r i r' hi (hage.alive halive) (hcb _ r' hr')

/-- A request is issued. -/
theorem Notified.execute (h : Notified T s) (hfresh : FreshKey s) {sync : Bool}
    (hissues : u.issues = s.issues ++ [{ id := s.table.sid + 1, sync := sync }])
    (htable : u.table = s.table.enter s.issues.length) : Notified T u := by
  have hcases : ∀ r i, u.issues[r]? = some i →
      s.issues[r]? = some i ∨
        (r = s.issues.length ∧ i = { id := s.table.sid + 1, sync := sync }) := by
    intro r i hi
    rw [hissues] at hi
    exact (getElem?_concat_cases hi).imp_left And.right
  have hkeep : ∀ (r : ℕ) (i : Issue), s.issues[r]? = some i → u.issues[r]? = some i :=
    fun r i => Layer.getElem?_concat hissues
  -- the new entry has no notifier
  have hn : ∀ key n, u.table.notifier key = some n →
      key ≠ s.table.sid + 1 ∧ s.table.notifier key = some n := by
    intro key n hn
    rw [htable] at hn
    by_cases hkey : key = s.table.sid + 1
    · subst hkey
      rw [RequestTable.notifier_enter_self hfresh.1] at hn
      cases hn
    · rw [RequestTable.notifier_enter_of_ne hkey] at hn
      exact ⟨hkey, hn⟩
  refine ⟨?_, ?_, h.once, ?_, fun key n hkey => h.error key n (hn key n hkey).2, ?_, ?_⟩
  · intro r i e hi hphase
    rcases hcases r i hi with hi | ⟨-, rfl⟩
    · exact h.failed r i e hi hphase
    · cases hphase
  · intro r e hT
    obtain ⟨i, hi, hbegun⟩ := h.begun r e hT
    exact ⟨i, hkeep r i hi, hbegun⟩
  · intro key n hkey
    exact Layer.idOf_concat hissues (h.own key n (hn key n hkey).2)
  · intro key n r hkey hr
    obtain ⟨hne, hkey⟩ := hn key n hkey
    rw [htable, RequestTable.callback_enter_of_ne hne] at hr
    exact h.addressee key n r hkey hr
  · intro r i r' hi halive hr'
    rcases hcases r i hi with hold | ⟨rfl, rfl⟩
    · have hne : i.id ≠ s.table.sid + 1 := hfresh.2 i (List.mem_of_getElem? hold) halive
      rw [htable, RequestTable.callback_enter_of_ne hne] at hr'
      exact h.alive r i r' hold halive hr'
    · rw [htable] at hr'
      exact (Option.some.inj (RequestTable.callback_enter_self.symm.trans hr')).symm

end

/-! ### The report -/

/-- The send of request `r` threw `e`. -/
def Threw (as : List StorageAction) (r : ℕ) (e : JsonrpcException) : Prop :=
  .layer (.sendThrew r e) ∈ as

/-- The law of the layer, and what is known of the notifiers, after the
actions `as`. -/
structure Known (as : List StorageAction) (s : Storage) : Prop where
  law : LayerInv s.layer
  notified : Notified (Threw as) s.layer

theorem Notified.congr {T T' : ℕ → JsonrpcException → Prop} {s : Layer} (h : Notified T s)
    (hT : ∀ r e, T r e ↔ T' r e) : Notified T' s := by
  obtain rfl : T = T' := funext fun r => funext fun e => propext (hT r e)
  exact h

theorem threw_append {as : List StorageAction} {a : StorageAction} {r : ℕ}
    {e : JsonrpcException} :
    Threw (as ++ [a]) r e ↔ Threw as r e ∨ a = .layer (.sendThrew r e) := by
  rw [Threw, List.mem_append, List.mem_singleton, eq_comm (b := a)]
  rfl

theorem Known.step {as : List StorageAction} {s u : Storage} {a : StorageAction}
    (h : Known as s) (hG : StorageKept s a) (hstep : storageMachine.step s a = some u) :
    Known (as ++ [a]) u := by
  refine ⟨layerInv_storageStep h.law hG hstep, ?_⟩
  -- actions of their own are no throws
  have hsame : (∀ b, a ≠ .layer b) → Notified (Threw as) u.layer →
      Notified (Threw (as ++ [a])) u.layer := by
    intro ha hu
    exact hu.congr fun r e => by simp [threw_append, ha]
  rcases storageStep_cases hstep with ⟨hu, address, value, rfl⟩ | ⟨b, hb, hab⟩
  · refine hsame (fun _ h => (nomatch h)) ?_
    rw [hu]
    exact h.notified
  · rcases hab with ⟨sync, address, rfl, rfl⟩ | ⟨key, n, rfl, -, rfl⟩ | ⟨rfl, hb'⟩
    · have hu := Option.some.inj hb
      exact hsame (fun _ h => (nomatch h))
        (h.notified.execute hG (congrArg Layer.issues hu.symm) (congrArg Layer.table hu.symm))
    · rcases layerStep_issues hb with ⟨_, h', -⟩ | ⟨hlen, hages⟩
      · cases h'
      · refine hsame (fun _ h => (nomatch h)) ?_
        exact (h.notified.of_ages hb hlen hages).congr fun r e => by simp
    · rcases layerStep_issues hb with ⟨_, rfl, -⟩ | ⟨hlen, hages⟩
      · cases hb'
      · refine (h.notified.of_ages hb hlen hages).congr fun r e => ?_
        rw [threw_append, StorageAction.layer.injEq]

theorem known_init : Known [] {} where
  law := layerInv_init
  notified := ⟨fun _ _ _ h => (nomatch h), fun _ _ h => absurd h List.not_mem_nil,
    fun _ _ _ h => absurd h List.not_mem_nil, fun _ _ h => (nomatch h), fun _ _ h => (nomatch h),
    fun _ _ _ h => (nomatch h), fun _ _ _ h => (nomatch h)⟩

theorem Known.run {as bs : List StorageAction} {s t : Storage} (h : Known as s)
    (hrun : storageMachine.Run StorageKept s bs t) : Known (as ++ bs) t := by
  induction hrun with
  | nil => rwa [List.append_nil]
  | snoc _ hG hstep ih =>
      rw [← List.append_assoc]
      exact ih.step hG hstep

/-- What a notifier does, on the way from `s` to `u`: it hands the error of
request `r` to `handleResult`; and if the callback of `r` is still kept, this
callback is invoked with it once, and else none is. -/
structure Reports (as : List StorageAction) (s u : Storage) (r : ℕ) (e : JsonrpcException)
    (id : UInt32) : Prop where
  threw : Threw as r e ∧ ∀ e', Threw as r e' → e' = e
  own : s.layer.idOf r = some id
  handed : u.layer = s.layer.handleResult (errorResponse id e.code e.message)
  invoked : u.layer.invoked = s.layer.invoked
  opened : s.layer.kept r id = 1 →
    u.layer.handlers = s.layer.handlers ++ [(some r, errorResponse id e.code e.message)] ∧
      ∀ bs v, storageMachine.Run StorageKept u bs v → v.layer.held r = 0 →
        v.layer.called r = 1 ∧ (r, errorResponse id e.code e.message) ∈ v.layer.invoked
  completed : s.layer.kept r id = 0 → s.layer.held r + s.layer.called r = 1 ∧
    (u.layer.handlers = s.layer.handlers ∨
      u.layer.handlers = s.layer.handlers ++ [(none, errorResponse id e.code e.message)])

/-- What is handed to a callback reaches it. -/
theorem handed_run {s t : Storage} {bs : List StorageAction} {d : ℕ × Json}
    (h : storageMachine.Run StorageKept s bs t)
    (hd : (some d.1, d.2) ∈ s.layer.handlers ∨ d ∈ s.layer.invoked) :
    (some d.1, d.2) ∈ t.layer.handlers ∨ d ∈ t.layer.invoked := by
  refine h.invariant (I := fun t => (some d.1, d.2) ∈ t.layer.handlers ∨ d ∈ t.layer.invoked) hd
    fun v a w hv _ hstep => ?_
  rcases storageStep_cases hstep with ⟨hw, -⟩ | ⟨b, hb, -⟩
  · rwa [hw]
  · exact layerStep_handed hb hv

/-- A callback that was handed a response, and that no handler holds any more,
has been called once. -/
theorem LayerInv.called_once {s : Layer} {r : ℕ} {data : Json} (h : LayerInv s)
    (hd : (some r, data) ∈ s.handlers ∨ (r, data) ∈ s.invoked) (hheld : s.held r = 0) :
    s.called r = 1 ∧ (r, data) ∈ s.invoked := by
  have hno : (some r, data) ∉ s.handlers := fun hmem =>
    List.count_eq_zero.mp hheld (List.mem_map_of_mem hmem)
  have hmem : (r, data) ∈ s.invoked := hd.resolve_left hno
  obtain ⟨id, hid, -⟩ := h.received r data hmem
  have hsum := h.once r id hid
  have hpos : 0 < s.called r := List.count_pos_iff.mpr (List.mem_map_of_mem hmem)
  exact ⟨by omega, hmem⟩

theorem reports_notify {as : List StorageAction} {s u : Storage} {key : UInt32}
    (h : Known as s) (hG : StorageKept s (.notify key))
    (hstep : storageMachine.step s (.notify key) = some u) :
    ∃ r e, s.layer.table.notifier key = some ⟨r, e⟩ ∧ Reports as s u r e key := by
  obtain ⟨n, hn, hstep'⟩ := Option.bind_eq_some_iff.mp hstep
  obtain ⟨l, hl, rfl⟩ := Option.map_eq_some_iff.mp hstep'
  -- the cell still has the id of the request, and the entry is under this id
  have hread : s.layer.idOf n.request = some (s.cells (s.place n.request)) := hG n hn
  have hkey : s.cells (s.place n.request) = key :=
    Option.some.inj (hread.symm.trans (h.notified.own key n hn))
  rw [hkey] at hl hread
  obtain rfl : l = s.layer.handleResult (errorResponse key n.error.code n.error.message) := by
    cases layerStep_turn hl with
    | notify _ hn' => rw [Option.some.inj (hn.symm.trans hn')]
  have herror := h.notified.error key n hn
  have hsum := h.law.once n.request key hread
  set data := errorResponse key n.error.code n.error.message with hdata
  have hid : responseId data = .ok key := responseId_errorResponse key _ _
  have hinvoked : (s.layer.handleResult data).invoked = s.layer.invoked := by
    rcases s.layer.handleResult_cases data with hs | ⟨_, _, -, -, hs⟩ <;> rw [hs]
  refine ⟨n.request, n.error, hn, ⟨herror, fun e' he' => h.notified.once _ _ _ he' herror⟩,
    hread, rfl, hinvoked, fun hkept => ?_, fun hkept => ?_⟩
  · -- the entry found has the callback of this request
    have hcb : s.layer.table.callback key = some n.request := by
      by_contra hne
      rw [Layer.kept, if_neg hne] at hkept
      cases hkept
    obtain ⟨entry, hl, hentry⟩ := Option.bind_eq_some_iff.mp hcb
    have hhandlers : (s.layer.handleResult data).handlers =
        s.layer.handlers ++ [(some n.request, data)] := by
      rw [Layer.handleResult_of_lookup hid hl, hentry]
    refine ⟨hhandlers, fun bs v hrun hheld => ?_⟩
    have hmem := handed_run (d := (n.request, data)) hrun
      (.inl (hhandlers ▸ List.mem_append_right _ (List.mem_singleton.mpr rfl)))
    exact ((h.step hG hstep).run hrun).law.called_once hmem hheld
  · refine ⟨by omega, ?_⟩
    rcases s.layer.handleResult_cases data with hs | ⟨j, entry, hj, hl, hs⟩
    · exact .inl (by rw [hs])
    · obtain rfl : key = j := Except.ok.inj (hid.symm.trans hj)
      -- an entry with this notifier has no callback but that of the request
      have hnone : entry.responseCallback = none := by
        rcases hr : entry.responseCallback with - | r
        · rfl
        · have hcb := (RequestTable.callback_of_lookup hl).trans hr
          obtain rfl := h.notified.addressee key n r hn hcb
          rw [Layer.kept, if_pos hcb] at hkept
          cases hkept
      exact .inr (by rw [hs, hnone])

/-! ### Main result -/

/-- The steps of `execute`. -/
def StorageAction.OfExecute : StorageAction → Prop
  | .execute .. | .layer (.sent _) | .layer (.sendThrew ..) | .layer (.installNotifier _) => True
  | _ => False

/-- `execute` invokes no callback. -/
theorem storageStep_ofExecute {s u : Storage} {a : StorageAction} (ha : a.OfExecute)
    (h : storageStep s a = some u) :
    u.layer.handlers = s.layer.handlers ∧ u.layer.invoked = s.layer.invoked := by
  cases a with
  | execute sync address =>
      obtain ⟨-, h⟩ := Option.ite_none_right_eq_some.mp h
      obtain rfl := Option.some.inj h
      exact ⟨rfl, rfl⟩
  | layer b =>
      obtain ⟨-, h⟩ := Option.ite_none_left_eq_some.mp h
      obtain ⟨l, hl, rfl⟩ := Option.map_eq_some_iff.mp h
      cases layerStep_turn hl with
      | sent _ _ | sendThrew _ _ _ | installNotifier _ _ => exact ⟨rfl, rfl⟩
      | _ => exact ha.elim
  | _ => exact ha.elim

/-- `execute` leaves a notifier behind for a send that threw. -/
theorem installs_notifier {as : List StorageAction} {s u : Storage} {r : ℕ} (h : Known as s)
    (hstep : storageStep s (.layer (.installNotifier r)) = some u) :
    ∃ id e, Threw as r e ∧ s.layer.idOf r = some id ∧
      u.layer.table.notifier id = some ⟨r, e⟩ := by
  obtain ⟨l, hl, rfl⟩ := Option.map_eq_some_iff.mp hstep
  cases layerStep_turn hl with
  | @installNotifier _ i e hi hphase =>
      exact ⟨i.id, e, h.notified.failed r i e hi hphase, Layer.idOf_of_getElem? hi,
        RequestTable.notifier_installNotifier_self _⟩

/-- **A send failure is reported to the request that failed**: `execute`
invokes no callback and leaves a notifier behind; and this hands the exception
to the callback of its own request once, or to none if that has been completed
before, in every run in which a notifier that runs still reads the id of its
request. -/
theorem failure_reported {as : List StorageAction} {s : Storage}
    (h : storageMachine.Run StorageKept {} as s) :
    (∀ a u, a.OfExecute → storageMachine.step s a = some u →
      u.layer.handlers = s.layer.handlers ∧ u.layer.invoked = s.layer.invoked) ∧
    (∀ r u, storageMachine.step s (.layer (.installNotifier r)) = some u →
      ∃ id e, Threw as r e ∧ s.layer.idOf r = some id ∧
        u.layer.table.notifier id = some ⟨r, e⟩) ∧
    ∀ key u, StorageKept s (.notify key) → storageMachine.step s (.notify key) = some u →
      ∃ r e, s.layer.table.notifier key = some ⟨r, e⟩ ∧ Reports as s u r e key := by
  have hknown : Known as s := known_init.run h
  exact ⟨fun a u ha hstep => storageStep_ofExecute ha hstep,
    fun r u hstep => installs_notifier hknown hstep,
    fun key u hG hstep => reports_notify hknown hG hstep⟩

/-- The send of a request throws, and its object is gone. -/
def failedRequest : List StorageAction :=
  [.execute false 0, .layer (.sendThrew 0 ⟨-1, "too big"⟩), .layer (.installNotifier 0)]

theorem failure_reported_one :
    ∃ s u v, storageMachine.Run StorageKept {} failedRequest s ∧
      storageMachine.step s (.notify 1) = some u ∧
      storageMachine.step u (.layer (.invoke 0)) = some v ∧
      v.layer.called 0 = 1 ∧ (0, errorResponse 1 (-1) "too big") ∈ v.layer.invoked := by
  have h : ∃ s u v, storageMachine.Run StorageKept {} failedRequest s ∧
      s.layer.table.notifier 1 = some ⟨0, ⟨-1, "too big"⟩⟩ ∧ StorageKept s (.notify 1) ∧
      s.layer.kept 0 1 = 1 ∧ storageMachine.step s (.notify 1) = some u ∧
      storageMachine.step u (.layer (.invoke 0)) = some v ∧ v.layer.held 0 = 0 := by
    refine ⟨_, _, _, ((Machine.Run.nil.snoc ⟨rfl, by simp⟩ rfl).snoc trivial rfl).snoc trivial rfl,
      rfl, ?_, rfl, rfl, rfl, rfl⟩
    rintro n ⟨⟩
    rfl
  obtain ⟨s, u, v, hrun, hn, hG, hkept, hnotify, hinvoke, hheld⟩ := h
  obtain ⟨r, e, hn', hreports⟩ := (failure_reported hrun).2.2 1 u hG hnotify
  cases hn.symm.trans hn'
  have hrest : storageMachine.Run StorageKept u [.layer (.invoke 0)] v :=
    Machine.Run.single trivial hinvoke
  exact ⟨s, u, v, hrun, hnotify, hinvoke, (hreports.opened hkept).2 _ v hrest hheld⟩

/-- **The storage of a request that failed is used by the next one**, and the
notifier completes that one with the error of the first. -/
theorem reused_storage_misreports :
    ∃ s u v, storageMachine.Run Machine.Always {}
        (failedRequest ++ [.execute false 0, .layer (.sent 1)]) s ∧
      s.layer.table.notifier 1 = some ⟨0, ⟨-1, "too big"⟩⟩ ∧
      storageMachine.step s (.notify 1) = some u ∧
      storageMachine.step u (.layer (.invoke 0)) = some v ∧
      v.layer.invoked = [(1, errorResponse 2 (-1) "too big")] ∧ v.layer.called 0 = 0 := by
  have h : ∃ s u v, storageMachine.eval {}
        (failedRequest ++ [.execute false 0, .layer (.sent 1)]) = some s ∧
      s.layer.table.notifier 1 = some ⟨0, ⟨-1, "too big"⟩⟩ ∧
      storageMachine.step s (.notify 1) = some u ∧
      storageMachine.step u (.layer (.invoke 0)) = some v ∧
      v.layer.invoked = [(1, errorResponse 2 (-1) "too big")] ∧ v.layer.called 0 = 0 :=
    ⟨_, _, _, rfl, rfl, rfl, rfl, rfl, rfl⟩
  obtain ⟨s, u, v, hrun, hrest⟩ := h
  exact ⟨s, u, v, Machine.Run.of_eval hrun, hrest⟩

end JetPeer
