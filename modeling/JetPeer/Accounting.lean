/-
JetPeer/Accounting.lean

The request layer under every interleaving of its steps.

Four ways lead out of the table of open requests: a response, a synthesized
send error, a cancellation and the destruction of a `SyncRequest`.  Requests
issued with a result callback are numbered, and the number stands for the
callback, so that one sum follows a request through all of them:

    kept + held + called = 1

It is kept in the table, held by a handler that took it out, or it has been
called.  `Accounted` is this law together with what makes it inductive: a
callback only ever stands under the id of its own request, and so does every
response on its way to it.

Ids are 32 bit numbers and wrap around.  Everything above needs one thing of
them (`FreshId`): a request is not issued under an id that is still in use.
The first 2^32 - 1 requests of a process are (`fresh_of_few`).
-/
import JetPeer.Requests
import JetPeer.Runs

namespace JetPeer

open Runs

/-! ### The layer -/

/-- Where `execute` stands with a request. -/
inductive Phase where
  | sending
  | failed (e : JsonrpcException)
  | returned
  deriving DecidableEq

/-- An `AsyncRequest` object executed with a result callback. -/
structure Issue where
  id : UInt32
  sync : Bool
  phase : Phase := .sending
  destroyed : Bool := false

/-- The object still exists: `execute` runs on it, or it is a `SyncRequest`
waiting for its result.  All other requests are locals of the function that
executes them. -/
def Issue.Alive (i : Issue) : Prop :=
  i.phase ≠ .returned ∨ (i.sync = true ∧ i.destroyed = false)

instance (i : Issue) : Decidable i.Alive := inferInstanceAs (Decidable (_ ∨ _))

/-- The process as far as requests go.  A handler is a thread inside
`handleResult` behind its critical section. -/
structure Layer where
  table : RequestTable ℕ := {}
  issues : List Issue := []
  handlers : List (Option ℕ × Json) := []
  invoked : List (ℕ × Json) := []

inductive LayerAction where
  | execute (sync : Bool)
  | sent (r : ℕ)
  | sendThrew (r : ℕ) (e : JsonrpcException)
  | installNotifier (r : ℕ)
  | notify (key id : UInt32)
  | handleResult (members : List (String × Json))
  | invoke (h : ℕ)
  | clear
  | destroy (r : ℕ)

namespace Layer

/-- The id of the `r`-th request. -/
def idOf (s : Layer) (r : ℕ) : Option UInt32 := s.issues[r]?.map Issue.id

/-- `handleResult` up to the invocation of the callback. -/
def handleResult (s : Layer) (data : Json) : Layer :=
  match responseId data with
  | .error _ => s
  | .ok id =>
      match s.table.take id with
      | none => s
      | some (r, table) =>
          { s with table := table, handlers := s.handlers ++ [(r.responseCallback, data)] }

/-- `execute` goes on with the `r`-th request. -/
def setPhase (s : Layer) (r : ℕ) (i : Issue) (phase : Phase) : Layer :=
  { s with issues := s.issues.set r { i with phase := phase } }

/-- The `r`-th request, if `p` holds of it. -/
def issueIf (s : Layer) (r : ℕ) (p : Issue → Bool) : Option Issue :=
  s.issues[r]?.filter p

end Layer

/-- One step of the layer.  The lambda of a notifier reads `m_id` through a
captured `this`; where the object is gone the read may yield anything. -/
def layerStep (s : Layer) : LayerAction → Option Layer
  | .execute sync =>
      some { s with
        table := s.table.enter s.issues.length
        issues := s.issues ++ [{ id := s.table.sid + 1, sync := sync }] }
  | .sent r => do
      let i ← s.issueIf r fun i => i.phase = .sending
      some (s.setPhase r i .returned)
  | .sendThrew r e => do
      let i ← s.issueIf r fun i => i.phase = .sending
      some (s.setPhase r i (.failed e))
  | .installNotifier r => do
      let i ← s.issues[r]?
      match i.phase with
      | .failed e =>
          some { s.setPhase r i .returned with table := s.table.installNotifier i.id ⟨r, e⟩ }
      | _ => none
  | .notify key id => do
      let n ← (s.table.openRequestCbs.lookup key).bind Request.errorNotifier
      let _ ← s.issueIf n.request fun i => i.Alive → id = i.id
      some (s.handleResult (errorResponse id n.error.code n.error.message))
  | .handleResult ms => some (s.handleResult (.object ms))
  | .invoke h => do
      let (cb, data) ← s.handlers[h]?
      -- an empty callback throws, and the handler catches everything
      some { s with
        handlers := s.handlers.eraseIdx h
        invoked := s.invoked ++ cb.toList.map fun r => (r, data) }
  | .clear => some { s with table := s.table.clear, invoked := s.invoked ++ s.table.cancelled }
  | .destroy r => do
      -- `executeSync` has returned: the result was delivered
      let i ← s.issueIf r fun i => i.sync ∧ i.phase = .returned ∧ ¬ i.destroyed ∧
        r ∈ s.invoked.map Prod.fst
      some { s with
        table := s.table.erase i.id
        issues := s.issues.set r { i with destroyed := true } }

def layerMachine : Machine Layer LayerAction := ⟨layerStep⟩

/-! ### The law -/

namespace Layer

/-- The callback of request `r` is kept under its id. -/
def kept (s : Layer) (r : ℕ) (id : UInt32) : ℕ :=
  if s.table.callback id = some r then 1 else 0

/-- Handlers about to invoke the callback of request `r`. -/
def held (s : Layer) (r : ℕ) : ℕ := (s.handlers.map Prod.fst).count (some r)

/-- Invocations of the callback of request `r`. -/
def called (s : Layer) (r : ℕ) : ℕ := (s.invoked.map Prod.fst).count r

/-- `data` is an object with the id of request `r`. -/
def Carries (s : Layer) (r : ℕ) (data : Json) : Prop :=
  ∃ id, s.idOf r = some id ∧ responseId data = .ok id ∧ ∃ ms, data = .object ms

end Layer

/-- Every request is in exactly one of three conditions, and nothing but a
response with its own id is or will be handed to its callback. -/
structure Accounted (s : Layer) : Prop where
  once : ∀ r id, s.idOf r = some id → s.kept r id + s.held r + s.called r = 1
  own : ∀ id r, s.table.callback id = some r → s.idOf r = some id
  handed : ∀ r data, (some r, data) ∈ s.handlers → s.Carries r data
  received : ∀ r data, (r, data) ∈ s.invoked → s.Carries r data

/-- The invariant: besides, the id of a `SyncRequest` that has not been
destroyed stands for no other request. -/
structure LayerInv (s : Layer) : Prop extends Accounted s where
  reserved : ∀ r i, s.issues[r]? = some i → i.sync = true → i.destroyed = false →
    ∀ r', s.table.callback i.id = some r' → r' = r

/-- A request is issued under an id that no kept callback and no existing
`SyncRequest` has. -/
def FreshId : Layer → LayerAction → Prop
  | s, .execute _ =>
      s.table.callback (s.table.sid + 1) = none ∧
        ∀ i ∈ s.issues, i.sync = true → i.destroyed = false → i.id ≠ s.table.sid + 1
  | _, _ => True

/-! ### Reading a layer -/

/-- An element of a list with one more at its end. -/
theorem getElem?_concat_cases {α : Type*} {l : List α} {x y : α} {k : ℕ}
    (h : (l ++ [x])[k]? = some y) : (k < l.length ∧ l[k]? = some y) ∨ (k = l.length ∧ y = x) := by
  rcases Nat.lt_or_ge k l.length with hlt | hge
  · rw [List.getElem?_append_left hlt] at h
    exact .inl ⟨hlt, h⟩
  · have hk := (List.getElem?_eq_some_iff.mp h).1
    rw [List.length_append, List.length_singleton] at hk
    obtain rfl : k = l.length := by omega
    rw [List.getElem?_concat_length] at h
    exact .inr ⟨rfl, (Option.some.inj h).symm⟩

namespace Layer

variable {s : Layer} {r : ℕ} {i : Issue}

theorem issueIf_eq_some {p : Issue → Bool} :
    s.issueIf r p = some i ↔ s.issues[r]? = some i ∧ p i = true := by
  simp [issueIf, Option.filter_eq_some_iff]

theorem idOf_of_getElem? (h : s.issues[r]? = some i) : s.idOf r = some i.id := by
  simp [idOf, h]

theorem lt_of_idOf {id : UInt32} (h : s.idOf r = some id) : r < s.issues.length := by
  obtain ⟨i, hi, -⟩ := Option.map_eq_some_iff.mp h
  exact (List.getElem?_eq_some_iff.mp hi).1

/-- Replacing a request by one with its id. -/
theorem idOf_set {j : Issue} {issues : List Issue} (h : issues[r]? = some i)
    (hj : j.id = i.id) (r' : ℕ) :
    ((issues.set r j)[r']?).map Issue.id = (issues[r']?).map Issue.id := by
  by_cases hr : r = r'
  · subst hr
    have hlt := (List.getElem?_eq_some_iff.mp h).1
    rw [List.getElem?_set_self hlt, h]
    simp [hj]
  · rw [List.getElem?_set_ne hr]

section Concat

variable {t : Layer} {j : Issue} {id : UInt32}

/-- One more request leaves the others as they are. -/
theorem getElem?_concat (hissues : t.issues = s.issues ++ [j]) (h : s.issues[r]? = some i) :
    t.issues[r]? = some i := by
  rw [hissues, List.getElem?_append_left (List.getElem?_eq_some_iff.mp h).1]
  exact h

theorem idOf_concat (hissues : t.issues = s.issues ++ [j]) (h : s.idOf r = some id) :
    t.idOf r = some id := by
  obtain ⟨i, hi, rfl⟩ := Option.map_eq_some_iff.mp h
  exact idOf_of_getElem? (getElem?_concat hissues hi)

theorem idOf_concat_self (hissues : t.issues = s.issues ++ [j]) :
    t.idOf s.issues.length = some j.id := by
  rw [idOf, hissues, List.getElem?_concat_length]
  rfl

theorem idOf_concat_cases (hissues : t.issues = s.issues ++ [j]) (h : t.idOf r = some id) :
    s.idOf r = some id ∨ (r = s.issues.length ∧ id = j.id) := by
  rw [idOf, hissues] at h
  obtain ⟨i, hi, rfl⟩ := Option.map_eq_some_iff.mp h
  rcases getElem?_concat_cases hi with ⟨-, hi⟩ | ⟨hr, rfl⟩
  · exact .inl (idOf_of_getElem? hi)
  · exact .inr ⟨hr, rfl⟩

end Concat

theorem Carries.mono {t : Layer} {data : Json} (h : s.Carries r data)
    (hid : ∀ r id, s.idOf r = some id → t.idOf r = some id) : t.Carries r data := by
  obtain ⟨id, hr, hdata⟩ := h
  exact ⟨id, hid r id hr, hdata⟩

end Layer

/-! ### What a step is -/

/-- A step of the layer with what it found, action by action. -/
inductive LayerTurn (s : Layer) : LayerAction → Layer → Prop
  | execute (sync : Bool) : LayerTurn s (.execute sync)
      { s with
        table := s.table.enter s.issues.length
        issues := s.issues ++ [{ id := s.table.sid + 1, sync := sync }] }
  | sent {r i} (hi : s.issues[r]? = some i) (hphase : i.phase = .sending) :
      LayerTurn s (.sent r) (s.setPhase r i .returned)
  | sendThrew {r i} (e) (hi : s.issues[r]? = some i) (hphase : i.phase = .sending) :
      LayerTurn s (.sendThrew r e) (s.setPhase r i (.failed e))
  | installNotifier {r i e} (hi : s.issues[r]? = some i) (hphase : i.phase = .failed e) :
      LayerTurn s (.installNotifier r)
        { s.setPhase r i .returned with table := s.table.installNotifier i.id ⟨r, e⟩ }
  | notify {key n} (id) (hn : s.table.notifier key = some n) : LayerTurn s (.notify key id)
      (s.handleResult (errorResponse id n.error.code n.error.message))
  | handleResult (ms) : LayerTurn s (.handleResult ms) (s.handleResult (.object ms))
  | invoke {h cb data} (hh : s.handlers[h]? = some (cb, data)) : LayerTurn s (.invoke h)
      { s with
        handlers := s.handlers.eraseIdx h
        invoked := s.invoked ++ cb.toList.map fun r => (r, data) }
  | clear : LayerTurn s .clear
      { s with table := s.table.clear, invoked := s.invoked ++ s.table.cancelled }
  | destroy {r i} (hi : s.issues[r]? = some i) (hsync : i.sync = true)
      (hdestroyed : i.destroyed = false) (hcalled : r ∈ s.invoked.map Prod.fst) :
      LayerTurn s (.destroy r)
        { s with
          table := s.table.erase i.id
          issues := s.issues.set r { i with destroyed := true } }

theorem layerStep_turn {s u : Layer} {a : LayerAction} (hstep : layerStep s a = some u) :
    LayerTurn s a u := by
  cases a with
  | execute sync =>
      obtain rfl := Option.some.inj hstep
      exact .execute sync
  | sent r =>
      obtain ⟨i, hi, hu⟩ := Option.bind_eq_some_iff.mp hstep
      obtain rfl := Option.some.inj hu
      obtain ⟨hi, hphase⟩ := Layer.issueIf_eq_some.mp hi
      exact .sent hi (of_decide_eq_true hphase)
  | sendThrew r e =>
      obtain ⟨i, hi, hu⟩ := Option.bind_eq_some_iff.mp hstep
      obtain rfl := Option.some.inj hu
      obtain ⟨hi, hphase⟩ := Layer.issueIf_eq_some.mp hi
      exact .sendThrew e hi (of_decide_eq_true hphase)
  | installNotifier r =>
      obtain ⟨i, hi, hu⟩ := Option.bind_eq_some_iff.mp hstep
      rcases hp : i.phase with - | e | - <;> simp only [hp] at hu
      · cases hu
      · obtain rfl := Option.some.inj hu
        exact .installNotifier hi hp
      · cases hu
  | notify key id =>
      obtain ⟨n, hn, hstep⟩ := Option.bind_eq_some_iff.mp hstep
      obtain ⟨-, -, hu⟩ := Option.bind_eq_some_iff.mp hstep
      obtain rfl := Option.some.inj hu
      exact .notify id hn
  | handleResult ms =>
      obtain rfl := Option.some.inj hstep
      exact .handleResult ms
  | invoke n =>
      obtain ⟨⟨cb, data⟩, hn, hu⟩ := Option.bind_eq_some_iff.mp hstep
      obtain rfl := Option.some.inj hu
      exact .invoke hn
  | clear =>
      obtain rfl := Option.some.inj hstep
      exact .clear
  | destroy r =>
      obtain ⟨i, hi, hu⟩ := Option.bind_eq_some_iff.mp hstep
      obtain rfl := Option.some.inj hu
      obtain ⟨hi, hcond⟩ := Layer.issueIf_eq_some.mp hi
      obtain ⟨hsync, -, hdes, hr⟩ := of_decide_eq_true hcond
      exact .destroy hi hsync (by simpa using hdes) hr

/-! ### One lemma a step -/

section Steps

variable {s t : Layer} {r : ℕ} {i : Issue}

/-- Ids are never reassigned, so what is on its way keeps its addressee. -/
theorem Accounted.kept_of_own (h : Accounted s) {id j : UInt32}
    (hr : s.idOf r = some id) (hj : s.table.callback j = some r) : j = id :=
  Option.some.inj ((h.own j r hj).symm.trans hr)

/-- Steps that only move a request along inside `execute`. -/
theorem LayerInv.of_same (h : LayerInv s) (hid : ∀ r, t.idOf r = s.idOf r)
    (hcb : ∀ id, t.table.callback id = s.table.callback id)
    (hhandlers : t.handlers = s.handlers) (hinvoked : t.invoked = s.invoked)
    (hlive : ∀ (r : ℕ) (i : Issue), t.issues[r]? = some i → i.sync = true → i.destroyed = false →
      ∃ j : Issue, s.issues[r]? = some j ∧ j.id = i.id ∧ j.sync = true ∧ j.destroyed = false) :
    LayerInv t where
  once := by
    intro r id hr
    rw [hid] at hr
    have := h.once r id hr
    simpa only [Layer.kept, Layer.held, Layer.called, hcb, hhandlers, hinvoked] using this
  own := by
    intro id r hr
    rw [hcb] at hr
    rw [hid]
    exact h.own id r hr
  handed := by
    intro r data hr
    rw [hhandlers] at hr
    exact (h.handed r data hr).mono fun r id hr => (hid r).trans hr
  received := by
    intro r data hr
    rw [hinvoked] at hr
    exact (h.received r data hr).mono fun r id hr => (hid r).trans hr
  reserved := by
    intro r i hi hsync hlive' r' hr'
    obtain ⟨j, hj, hjid, hjs, hjd⟩ := hlive r i hi hsync hlive'
    rw [hcb, ← hjid] at hr'
    exact h.reserved r j hj hjs hjd r' hr'

theorem LayerInv.setPhase (h : LayerInv s) (hi : s.issues[r]? = some i) (phase : Phase) :
    LayerInv (s.setPhase r i phase) := by
  refine h.of_same (Layer.idOf_set hi rfl) (fun _ => rfl) rfl rfl ?_
  intro r' j hj hsync hlive
  have hj' : (s.issues.set r { i with phase := phase })[r']? = some j := hj
  by_cases hr : r = r'
  · subst hr
    rw [List.getElem?_set_self (List.getElem?_eq_some_iff.mp hi).1] at hj'
    obtain rfl := Option.some.inj hj'
    exact ⟨i, hi, rfl, hsync, hlive⟩
  · rw [List.getElem?_set_ne hr] at hj'
    exact ⟨j, hj', rfl, hsync, hlive⟩

theorem LayerInv.installNotifier (h : LayerInv s) (id : UInt32) (n : ErrorNotifier) :
    LayerInv { s with table := s.table.installNotifier id n } :=
  h.of_same (fun _ => rfl) (fun _ => RequestTable.callback_installNotifier n) rfl rfl
    fun _ j hj hsync hlive => ⟨j, hj, rfl, hsync, hlive⟩

/-- Nothing is under way of a request that has not been issued. -/
theorem LayerInv.not_under_way (h : LayerInv s) (hunused : s.idOf r = none) :
    s.held r = 0 ∧ s.called r = 0 := by
  have hno : ∀ data, ¬ s.Carries r data := by
    rintro data ⟨id, hid, -⟩
    rw [hunused] at hid
    cases hid
  constructor
  · refine List.count_eq_zero.mpr fun hmem => ?_
    obtain ⟨⟨_, data⟩, hd, rfl⟩ := List.mem_map.mp hmem
    exact hno data (h.handed _ _ hd)
  · refine List.count_eq_zero.mpr fun hmem => ?_
    obtain ⟨⟨_, data⟩, hd, rfl⟩ := List.mem_map.mp hmem
    exact hno data (h.received _ _ hd)

/-- A new request is the first one of its number. -/
theorem LayerInv.execute (h : LayerInv s) {sync : Bool} (hfresh : FreshId s (.execute sync)) :
    LayerInv { s with
      table := s.table.enter s.issues.length
      issues := s.issues ++ [{ id := s.table.sid + 1, sync := sync }] } := by
  obtain ⟨hfree, hlive⟩ := hfresh
  set t : Layer := { s with
    table := s.table.enter s.issues.length
    issues := s.issues ++ [{ id := s.table.sid + 1, sync := sync }] } with ht
  have hissues : t.issues = s.issues ++ [{ id := s.table.sid + 1, sync := sync }] := rfl
  have hold : ∀ r id, s.idOf r = some id → t.idOf r = some id := fun r id =>
    Layer.idOf_concat hissues
  have hnew : t.idOf s.issues.length = some (s.table.sid + 1) := Layer.idOf_concat_self hissues
  have hcb : ∀ id, id ≠ s.table.sid + 1 → t.table.callback id = s.table.callback id :=
    fun id hid => RequestTable.callback_enter_of_ne hid
  have hcbself : t.table.callback (s.table.sid + 1) = some s.issues.length :=
    RequestTable.callback_enter_self
  refine ⟨⟨?_, ?_, ?_, ?_⟩, ?_⟩
  · intro r id hr
    rcases Layer.idOf_concat_cases hissues hr with hr | ⟨rfl, rfl⟩
    · have hsum := h.once r id hr
      have hkept : t.kept r id = s.kept r id := by
        by_cases hid : id = s.table.sid + 1
        · subst hid
          have hne : s.issues.length ≠ r := (Layer.lt_of_idOf hr).ne'
          simp [Layer.kept, hcbself, hfree, hne]
        · simp only [Layer.kept, hcb id hid]
      rw [hkept]
      exact hsum
    · -- the number has not been given before
      have hunused : s.idOf s.issues.length = none := by
        simp [Layer.idOf]
      obtain ⟨hheld, hcalled⟩ := h.not_under_way hunused
      show t.kept s.issues.length (s.table.sid + 1) + s.held _ + s.called _ = 1
      rw [hheld, hcalled, Layer.kept, hcbself, if_pos rfl]
  · intro id r hr
    by_cases hid : id = s.table.sid + 1
    · subst hid
      rw [hcbself] at hr
      obtain rfl := Option.some.inj hr
      exact hnew
    · rw [hcb id hid] at hr
      exact hold r id (h.own id r hr)
  · exact fun r data hr => (h.handed r data hr).mono hold
  · exact fun r data hr => (h.received r data hr).mono hold
  · intro r i hi hsync hdes r' hr'
    rcases getElem?_concat_cases hi with ⟨-, hi⟩ | ⟨rfl, rfl⟩
    · have hne := hlive i (List.mem_of_getElem? hi) hsync hdes
      rw [hcb _ hne] at hr'
      exact h.reserved r i hi hsync hdes r' hr'
    · rw [hcbself] at hr'
      exact (Option.some.inj hr').symm

theorem Layer.handleResult_of_lookup {s : Layer} {data : Json} {id : UInt32} {e : Request ℕ}
    (hid : responseId data = .ok id) (hl : s.table.openRequestCbs.lookup id = some e) :
    s.handleResult data = { s with
      table := s.table.erase id, handlers := s.handlers ++ [(e.responseCallback, data)] } := by
  simp [Layer.handleResult, hid, RequestTable.take_eq_some.mpr ⟨hl, rfl⟩]

/-- What `handleResult` does: nothing, or it takes one entry out. -/
theorem Layer.handleResult_cases (s : Layer) (data : Json) :
    s.handleResult data = s ∨ ∃ id r, responseId data = .ok id ∧
      s.table.openRequestCbs.lookup id = some r ∧
      s.handleResult data = { s with
        table := s.table.erase id, handlers := s.handlers ++ [(r.responseCallback, data)] } := by
  rcases hid : responseId data with e | id
  · exact .inl (by simp [Layer.handleResult, hid])
  · rcases hl : s.table.openRequestCbs.lookup id with - | r
    · exact .inl (by simp [Layer.handleResult, hid, RequestTable.take, hl])
    · exact .inr ⟨id, r, rfl, hl, Layer.handleResult_of_lookup hid hl⟩

theorem LayerInv.handleResult (h : LayerInv s) {data : Json} (hdata : ∃ ms, data = .object ms) :
    LayerInv (s.handleResult data) := by
  rcases s.handleResult_cases data with hs | ⟨id, e, hid, hl, hs⟩
  · rwa [hs]
  rw [hs]
  have hcb : s.table.callback id = e.responseCallback := RequestTable.callback_of_lookup hl
  have hsub : ∀ j r, (s.table.erase id).callback j = some r → s.table.callback j = some r := by
    intro j r hj
    by_cases hji : j = id
    · subst hji
      simp at hj
    · rwa [RequestTable.callback_erase_of_ne hji] at hj
  refine ⟨⟨?_, ?_, ?_, h.received⟩, ?_⟩
  · -- the callback moves from the table to the handler
    intro r j hr
    have hsum := h.once r j hr
    have hheld : Layer.held { s with
        table := s.table.erase id, handlers := s.handlers ++ [(e.responseCallback, data)] } r
        = s.held r + if e.responseCallback = some r then 1 else 0 := by
      simp [Layer.held, List.count_append, List.count_cons]
    have hkept : Layer.kept { s with
        table := s.table.erase id, handlers := s.handlers ++ [(e.responseCallback, data)] } r j
        + (if e.responseCallback = some r then 1 else 0) = s.kept r j := by
      by_cases hji : j = id
      · subst hji
        simp [Layer.kept, hcb]
      · have hne : e.responseCallback ≠ some r := fun he =>
          hji (h.kept_of_own hr (hcb.trans he)).symm
        simp [Layer.kept, RequestTable.callback_erase_of_ne hji, hne]
    show Layer.kept _ r j + Layer.held _ r + s.called r = 1
    rw [hheld]
    omega
  · exact fun j r hj => h.own j r (hsub j r hj)
  · intro r d hd
    rcases List.mem_append.mp hd with hd | hd
    · exact h.handed r d hd
    · simp only [List.mem_singleton, Prod.mk.injEq] at hd
      obtain ⟨hr, rfl⟩ := hd
      exact ⟨id, h.own id r (hcb.trans hr.symm), hid, hdata⟩
  · exact fun r i hi hsync hdes r' hr' => h.reserved r i hi hsync hdes r' (hsub _ _ hr')

/-- A handler that invokes its callback has done so once. -/
theorem LayerInv.invoke (h : LayerInv s) {n : ℕ} {cb : Option ℕ} {data : Json}
    (hn : s.handlers[n]? = some (cb, data)) :
    LayerInv { s with
      handlers := s.handlers.eraseIdx n
      invoked := s.invoked ++ cb.toList.map fun r => (r, data) } := by
  obtain ⟨hlt, hget⟩ := List.getElem?_eq_some_iff.mp hn
  have hmem : (cb, data) ∈ s.handlers := List.mem_of_getElem? hn
  refine ⟨⟨?_, h.own, ?_, ?_⟩, h.reserved⟩
  · intro r id hr
    have hsum := h.once r id hr
    have hperm := ((List.getElem_cons_eraseIdx_perm hlt).map Prod.fst).count_eq (some r)
    rw [hget, List.map_cons, List.count_cons] at hperm
    have hheld : s.held r
        = Layer.held { s with
            handlers := s.handlers.eraseIdx n
            invoked := s.invoked ++ cb.toList.map fun r => (r, data) } r
          + if cb = some r then 1 else 0 := by
      simp only [Layer.held, ← hperm, beq_iff_eq]
    have hcalled : Layer.called { s with
        handlers := s.handlers.eraseIdx n
        invoked := s.invoked ++ cb.toList.map fun r => (r, data) } r
        = s.called r + if cb = some r then 1 else 0 := by
      cases cb <;> simp [Layer.called, List.count_append, List.count_cons]
    show s.kept r id + Layer.held _ r + Layer.called _ r = 1
    rw [hcalled]
    omega
  · exact fun r d hd => h.handed r d (List.mem_of_mem_eraseIdx hd)
  · intro r d hd
    rcases List.mem_append.mp hd with hd | hd
    · exact h.received r d hd
    · obtain ⟨r', hr', heq⟩ := List.mem_map.mp hd
      obtain ⟨rfl, rfl⟩ := Prod.mk.inj heq
      rw [Option.mem_toList] at hr'
      rw [Option.mem_def.mp hr'] at hmem
      exact h.handed r' data hmem

/-- `clear` moves every callback from the table to the invocations. -/
theorem LayerInv.clear (h : LayerInv s) :
    LayerInv { s with table := s.table.clear, invoked := s.invoked ++ s.table.cancelled } := by
  refine ⟨⟨?_, ?_, h.handed, ?_⟩, ?_⟩
  · intro r id hr
    have hsum := h.once r id hr
    -- a request is kept under its own id only
    have hcancelled : (s.table.cancelled.map Prod.fst).count r =
        if s.table.callback id = some r then 1 else 0 :=
      RequestTable.count_cancelled fun i hi => h.kept_of_own hr hi
    have hcalled : Layer.called { s with
        table := s.table.clear, invoked := s.invoked ++ s.table.cancelled } r
        = s.called r + s.kept r id := by
      simp only [Layer.called, List.map_append, List.count_append, hcancelled, Layer.kept]
    have hkept : Layer.kept { s with
        table := s.table.clear, invoked := s.invoked ++ s.table.cancelled } r id = 0 := by
      simp [Layer.kept]
    show Layer.kept _ r id + s.held r + Layer.called _ r = 1
    rw [hkept, hcalled]
    omega
  · intro id r hr
    simp at hr
  · intro r d hd
    rcases List.mem_append.mp hd with hd | hd
    · exact h.received r d hd
    · obtain ⟨id, hid, rfl⟩ := RequestTable.mem_cancelled.mp hd
      exact ⟨id, h.own id r hid, responseId_cancelResponse id, errorResponse_eq_object _ _ _⟩
  · intro r i _ _ _ r' hr'
    simp at hr'

/-- The destructor of a `SyncRequest` finds no callback to remove. -/
theorem LayerInv.destroy (h : LayerInv s) (hi : s.issues[r]? = some i) (hsync : i.sync = true)
    (hdes : i.destroyed = false) (hr : r ∈ s.invoked.map Prod.fst) :
    LayerInv { s with
      table := s.table.erase i.id
      issues := s.issues.set r { i with destroyed := true } } := by
  have hgone : s.table.callback i.id = none := by
    rcases hcb : s.table.callback i.id with - | r'
    · rfl
    · -- only its own callback could be kept there, but that has been called
      obtain rfl := h.reserved r i hi hsync hdes r' hcb
      have hsum := h.once r' i.id (Layer.idOf_of_getElem? hi)
      have hcalled : 0 < s.called r' := List.count_pos_iff.mpr hr
      have hkept : s.kept r' i.id = 1 := if_pos hcb
      omega
  have hsame : ∀ id, (s.table.erase i.id).callback id = s.table.callback id := by
    intro id
    by_cases hid : id = i.id
    · subst hid
      rw [hgone, RequestTable.callback_erase_self]
    · exact RequestTable.callback_erase_of_ne hid
  refine h.of_same (Layer.idOf_set hi rfl) hsame rfl rfl ?_
  intro r' j hj hjs hjd
  have hj' : (s.issues.set r { i with destroyed := true })[r']? = some j := hj
  by_cases hr' : r = r'
  · subst hr'
    rw [List.getElem?_set_self (List.getElem?_eq_some_iff.mp hi).1] at hj'
    obtain rfl := Option.some.inj hj'
    cases hjd
  · rw [List.getElem?_set_ne hr'] at hj'
    exact ⟨j, hj', rfl, hjs, hjd⟩

end Steps

/-- **One step** of the layer keeps the law, if it issues no request under an
id in use. -/
theorem layerStep_inv {s u : Layer} {a : LayerAction} (h : LayerInv s) (hfresh : FreshId s a)
    (hstep : layerMachine.step s a = some u) : LayerInv u := by
  cases layerStep_turn hstep with
  | execute sync => exact h.execute hfresh
  | sent hi _ => exact h.setPhase hi _
  | sendThrew e hi _ => exact h.setPhase hi _
  | installNotifier hi _ => exact (h.setPhase hi .returned).installNotifier _ _
  | notify id _ => exact h.handleResult (errorResponse_eq_object _ _ _)
  | handleResult ms => exact h.handleResult ⟨ms, rfl⟩
  | invoke hh => exact h.invoke hh
  | clear => exact h.clear
  | destroy hi hsync hdestroyed hcalled => exact h.destroy hi hsync hdestroyed hcalled

theorem layerInv_init : LayerInv {} where
  once := fun r id hr => by simp [Layer.idOf] at hr
  own := fun id r hr => by simp [RequestTable.callback] at hr
  handed := fun r data hr => by simp at hr
  received := fun r data hr => by simp at hr
  reserved := fun r i hi => by simp at hi

/-! ### How a callback leaves the table -/

/-- The steps that complete the request with this id. -/
def Completes (id : UInt32) : LayerAction → Prop
  | .clear => True
  | .handleResult ms => responseId (.object ms) = .ok id
  | .notify _ i => i = id
  | _ => False

theorem handleResult_callback {s : Layer} {data : Json} {id : UInt32} {r : ℕ}
    (hr : s.table.callback id = some r)
    (hgone : (s.handleResult data).table.callback id ≠ some r) : responseId data = .ok id := by
  rcases s.handleResult_cases data with hs | ⟨j, e, hj, -, hs⟩
  · rw [hs] at hgone
    exact absurd hr hgone
  · rw [hs] at hgone
    by_cases hid : id = j
    · rw [hid, hj]
    · exact absurd (by rw [RequestTable.callback_erase_of_ne hid]; exact hr) hgone

/-- A kept callback leaves the table, or makes room for another one, only
when its request is completed. -/
theorem layerStep_completes {s u : Layer} {a : LayerAction} (h : LayerInv s)
    (hfresh : FreshId s a) (hstep : layerMachine.step s a = some u) {id : UInt32} {r : ℕ}
    (hr : s.table.callback id = some r) (hgone : u.table.callback id ≠ some r) :
    Completes id a := by
  cases layerStep_turn hstep with
  | execute sync =>
      have hne : id ≠ s.table.sid + 1 := by
        rintro rfl
        rw [hfresh.1] at hr
        cases hr
      exact absurd ((RequestTable.callback_enter_of_ne hne).trans hr) hgone
  | installNotifier _ _ =>
      exact absurd ((RequestTable.callback_installNotifier _).trans hr) hgone
  | notify i _ =>
      have hid := handleResult_callback hr hgone
      rw [responseId_errorResponse] at hid
      exact Except.ok.inj hid
  | handleResult ms => exact handleResult_callback hr hgone
  | clear => trivial
  | @destroy r' i hi hsync hdestroyed hcalled =>
      by_cases hid : id = i.id
      · -- the callback kept there would be its own, which has been called
        subst hid
        obtain rfl := h.reserved r' i hi hsync hdestroyed r hr
        have hsum := h.once r i.id (Layer.idOf_of_getElem? hi)
        have hpos : 0 < s.called r := List.count_pos_iff.mpr hcalled
        have hkept : s.kept r i.id = 1 := if_pos hr
        omega
      · exact absurd ((RequestTable.callback_erase_of_ne hid).trans hr) hgone
  | _ => exact absurd hr hgone

/-! ### The first 2^32 - 1 requests -/

/-- Requests are numbered by the ids they get. -/
structure Numbered (s : Layer) : Prop where
  sid : s.table.sid = UInt32.ofNat s.issues.length
  ids : ∀ r id, s.idOf r = some id → id = UInt32.ofNat (r + 1)

/-- Only `execute` gives an id away. -/
theorem layerStep_ids {s u : Layer} {a : LayerAction}
    (hstep : layerMachine.step s a = some u) :
    (∃ sync, a = .execute sync ∧ u.table.sid = s.table.sid + 1 ∧
        u.issues = s.issues ++ [{ id := s.table.sid + 1, sync := sync }]) ∨
      (u.table.sid = s.table.sid ∧ u.issues.length = s.issues.length ∧
        ∀ r, u.idOf r = s.idOf r) := by
  have hresult : ∀ data, (s.handleResult data).table.sid = s.table.sid ∧
      (s.handleResult data).issues.length = s.issues.length ∧
      ∀ r, (s.handleResult data).idOf r = s.idOf r := by
    intro data
    rcases s.handleResult_cases data with hs | ⟨_, _, -, -, hs⟩ <;> rw [hs] <;>
      exact ⟨rfl, rfl, fun _ => rfl⟩
  cases layerStep_turn hstep with
  | execute sync => exact .inl ⟨sync, rfl, rfl, rfl⟩
  | sent hi _ => exact .inr ⟨rfl, List.length_set, Layer.idOf_set hi rfl⟩
  | sendThrew e hi _ => exact .inr ⟨rfl, List.length_set, Layer.idOf_set hi rfl⟩
  | installNotifier hi _ => exact .inr ⟨rfl, List.length_set, Layer.idOf_set hi rfl⟩
  | notify id _ => exact .inr (hresult _)
  | handleResult ms => exact .inr (hresult _)
  | invoke _ => exact .inr ⟨rfl, rfl, fun _ => rfl⟩
  | clear => exact .inr ⟨rfl, rfl, fun _ => rfl⟩
  | destroy hi _ _ _ => exact .inr ⟨rfl, List.length_set, Layer.idOf_set hi rfl⟩

theorem layerStep_numbered {s u : Layer} {a : LayerAction} (h : Numbered s)
    (hstep : layerMachine.step s a = some u) : Numbered u := by
  rcases layerStep_ids hstep with ⟨sync, -, hsid, hissues⟩ | ⟨hsid, hlen, hids⟩
  · have hnew : s.table.sid + 1 = UInt32.ofNat (s.issues.length + 1) := by
      rw [h.sid, UInt32.ofNat_add]
      rfl
    refine ⟨by rw [hsid, hnew, hissues, List.length_append]; rfl, ?_⟩
    intro r id hr
    rcases Layer.idOf_concat_cases hissues hr with hr | ⟨rfl, rfl⟩
    · exact h.ids r id hr
    · exact hnew
  · exact ⟨by rw [hsid, hlen, h.sid], fun r id hr => h.ids r id ((hids r).symm.trans hr)⟩

theorem ofNat_succ_inj {m n : ℕ} (hm : m + 1 < 2 ^ 32) (hn : n + 1 < 2 ^ 32)
    (h : UInt32.ofNat (m + 1) = UInt32.ofNat (n + 1)) : m = n := by
  have h' := congrArg UInt32.toNat h
  rw [UInt32.toNat_ofNat', UInt32.toNat_ofNat', Nat.mod_eq_of_lt hm, Nat.mod_eq_of_lt hn] at h'
  omega

/-- No id is given away twice while there are fewer than 2^32 requests. -/
theorem fresh_of_few {as : List LayerAction} {s : Layer}
    (h : layerMachine.Run Machine.Always {} as s) (hfew : s.issues.length < 2 ^ 32) :
    layerMachine.Run FreshId {} as s ∧ LayerInv s ∧ Numbered s := by
  induction h with
  | nil => exact ⟨.nil, layerInv_init, ⟨rfl, fun r id hr => by simp [Layer.idOf] at hr⟩⟩
  | @snoc as t a u hrun _ hstep ih =>
      have hlen : t.issues.length ≤ u.issues.length := by
        rcases layerStep_ids hstep with ⟨sync, -, -, hissues⟩ | ⟨-, hlen, -⟩
        · rw [hissues, List.length_append]
          exact Nat.le_add_right _ _
        · exact hlen.ge
      obtain ⟨hrun', hinv, hnum⟩ := ih (hlen.trans_lt hfew)
      have hfresh : FreshId t a := by
        cases a with
        | execute sync =>
            -- an id in use would be one of the ids given away before
            have hlt : t.issues.length + 1 < 2 ^ 32 := by
              obtain rfl := Option.some.inj hstep
              rw [List.length_append] at hfew
              exact hfew
            have hnew : ∀ r id, t.idOf r = some id → id ≠ t.table.sid + 1 := by
              intro r id hr hid
              have hr' := Layer.lt_of_idOf hr
              rw [hnum.ids r id hr, hnum.sid] at hid
              have heq := ofNat_succ_inj (by omega) hlt (hid.trans (by
                rw [UInt32.ofNat_add]; rfl))
              omega
            refine ⟨?_, ?_⟩
            · rcases hcb : t.table.callback (t.table.sid + 1) with - | r
              · rfl
              · exact absurd rfl (hnew r _ (hinv.own _ r hcb))
            · intro i hi _ _
              obtain ⟨r, hr⟩ := List.getElem?_of_mem hi
              exact hnew r i.id (Layer.idOf_of_getElem? hr)
        | _ => trivial
      exact ⟨hrun'.snoc hfresh hstep, layerStep_inv hinv hfresh hstep,
        layerStep_numbered hnum hstep⟩

/-! ### Main result -/

/-- **Request accounting**: whatever the order of the steps, as long as no
request is issued under an id in use, every request issued with a result
callback is kept under its id, held by one handler, or has been called once,
always with a response of its own id; and it leaves the table by one of its
completions only. -/
theorem requests_accounted {as : List LayerAction} {s : Layer}
    (h : layerMachine.Run FreshId {} as s) :
    Accounted s ∧ ∀ a u, FreshId s a → layerMachine.step s a = some u →
      ∀ id r, s.table.callback id = some r → u.table.callback id ≠ some r →
        Completes id a := by
  have hinv : LayerInv s := h.invariant layerInv_init fun _ _ _ => layerStep_inv
  exact ⟨hinv.toAccounted, fun a u hfresh hstep id r => layerStep_completes hinv hfresh hstep⟩

/-- A request, its response and the invocation of its callback. -/
def oneRequest : List LayerAction :=
  [.execute false, .sent 0, .handleResult [(Jsonrpc.id, .uint 1)], .invoke 0]

theorem requests_accounted_one :
    ∃ s, layerMachine.Run FreshId {} oneRequest s ∧ Accounted s ∧ s.called 0 = 1 := by
  have h : ∃ s, layerMachine.Run FreshId {} oneRequest s ∧ s.called 0 = 1 :=
    ⟨_, (((Machine.Run.nil.snoc ⟨rfl, by simp⟩ rfl).snoc trivial rfl).snoc trivial rfl).snoc
      trivial rfl, rfl⟩
  obtain ⟨s, hs, hcalled⟩ := h
  exact ⟨s, hs, (requests_accounted hs).1, hcalled⟩

/-! ### An id in use -/

/-- A request with its response and the invocation of its callback, on top
of an open request that keeps id 1. -/
theorem run_round {as : List LayerAction} {s : Layer}
    (h : layerMachine.Run Machine.Always {} as s) (hsid : s.table.sid + 1 ≠ 1)
    (hkept : s.table.callback 1 = some 0) (hhandlers : s.handlers = [])
    (hcalled : s.called 0 = 0) (hid : s.idOf 0 = some 1) :
    ∃ as u, layerMachine.Run Machine.Always {} as u ∧ u.table.sid = s.table.sid + 1 ∧
      u.table.callback 1 = some 0 ∧ u.handlers = [] ∧ u.called 0 = 0 ∧ u.idOf 0 = some 1 := by
  set n := s.issues.length with hn
  have hpos : 0 < n := Layer.lt_of_idOf hid
  set id := s.table.sid + 1 with hiddef
  let data : Json := .object [(Jsonrpc.id, .uint id.toNat)]
  have hdata : responseId data = .ok id := Json.asUInt_uint_toNat id
  let s₁ : Layer := { s with
    table := s.table.enter n, issues := s.issues ++ [{ id := id, sync := false }] }
  let s₂ : Layer := { s₁ with table := s₁.table.erase id, handlers := [(some n, data)] }
  let s₃ : Layer := { s₂ with handlers := [], invoked := s.invoked ++ [(n, data)] }
  have h₁ : layerMachine.step s (.execute false) = some s₁ := rfl
  have h₂ : layerMachine.step s₁ (.handleResult [(Jsonrpc.id, .uint id.toNat)]) = some s₂ := by
    show some (s₁.handleResult data) = some s₂
    rw [Layer.handleResult_of_lookup (e := { s.table.entry id with responseCallback := some n })
      hdata (AList.lookup_insert _)]
    show some { s₁ with table := _, handlers := s.handlers ++ _ } = some s₂
    rw [hhandlers]
    rfl
  have h₃ : layerMachine.step s₂ (.invoke 0) = some s₃ := rfl
  refine ⟨_, s₃, ((h.snoc trivial h₁).snoc trivial h₂).snoc trivial h₃, rfl, ?_, rfl, ?_, ?_⟩
  · show (s₁.table.erase id).callback 1 = some 0
    rw [RequestTable.callback_erase_of_ne (Ne.symm hsid),
      RequestTable.callback_enter_of_ne (Ne.symm hsid)]
    exact hkept
  · show ((s.invoked ++ [(n, data)]).map Prod.fst).count 0 = 0
    rw [List.map_append, List.count_append]
    show s.called 0 + [n].count 0 = 0
    rw [hcalled, List.count_singleton, if_neg (by simpa using hpos.ne')]
  · exact Layer.idOf_concat rfl hid

/-- Any number of further requests can come and go before the counter is
back. -/
theorem run_rounds (k : ℕ) (hk : k < 2 ^ 32) :
    ∃ as s, layerMachine.Run Machine.Always {} as s ∧ s.table.sid = UInt32.ofNat (k + 1) ∧
      s.table.callback 1 = some 0 ∧ s.handlers = [] ∧ s.called 0 = 0 ∧ s.idOf 0 = some 1 := by
  induction k with
  | zero => exact ⟨[.execute false], _, Machine.Run.single trivial rfl, rfl, rfl, rfl, rfl, rfl⟩
  | succ k ih =>
      obtain ⟨as, s, hrun, hsid, hkept, hhandlers, hcalled, hid⟩ := ih (by omega)
      have hne : s.table.sid + 1 ≠ 1 := by
        rw [hsid]
        intro h
        have h' := congrArg UInt32.toNat h
        rw [UInt32.toNat_add, UInt32.toNat_ofNat'] at h'
        have h1 : (1 : UInt32).toNat = 1 := rfl
        omega
      obtain ⟨as', u, hu, husid, hrest⟩ := run_round hrun hne hkept hhandlers hcalled hid
      refine ⟨as', u, hu, ?_, hrest⟩
      rw [husid, hsid, UInt32.ofNat_add (k + 1) 1]
      rfl

/-- One request stays open while 2^32 others are issued: the last of them
gets its id and replaces its callback, which is then lost. -/
theorem reused_id_loses_callback :
    ∃ as s, layerMachine.Run Machine.Always {} as s ∧ ¬ Accounted s := by
  obtain ⟨as, s, hrun, hsid, hkept, hhandlers, hcalled, hid⟩ :=
    run_rounds (2 ^ 32 - 1) (by norm_num)
  have hzero : s.table.sid + 1 = 1 := by
    rw [hsid]
    rfl
  refine ⟨_, _, hrun.snoc (a := .execute false) trivial rfl, fun h => ?_⟩
  have hpos : 0 < s.issues.length := Layer.lt_of_idOf hid
  have hid' : Layer.idOf { s with
      table := s.table.enter s.issues.length
      issues := s.issues ++ [{ id := s.table.sid + 1, sync := false }] } 0 = some 1 :=
    Layer.idOf_concat rfl hid
  have hlost : (s.table.enter s.issues.length).callback 1 = some s.issues.length := by
    rw [← hzero]
    exact RequestTable.callback_enter_self
  have hsum := h.once 0 1 hid'
  have hzero' : Layer.kept { s with
      table := s.table.enter s.issues.length
      issues := s.issues ++ [{ id := s.table.sid + 1, sync := false }] } 0 1 = 0 := by
    refine if_neg fun hk => hpos.ne' ?_
    exact Option.some.inj (hlost.symm.trans hk)
  have hheld : s.held 0 = 0 := by
    rw [Layer.held, hhandlers]
    rfl
  rw [hzero'] at hsum
  change 0 + s.held 0 + s.called 0 = 1 at hsum
  omega

end JetPeer
