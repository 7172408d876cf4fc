/-
JetPeer/Reentry.lean

What result callbacks start while they are invoked.

Three paths of the library invoke result callbacks: `handleResult` for a
response, `handleResult` for a deferred send error, and `AsyncRequest::clear`
in `stop()`.  One thread runs such a path from its beginning to its end, the
operations the callbacks start in turn included, and only its hold on
`m_mtx_openRequestCbs` decides how far it gets: `std::mutex` is not recursive,
so a `lock` by its holder never returns.  That is the value `none`, and
nothing else is.

What an operation does is taken from `Shared.call`, and what happens is an
event as everywhere.
-/
import JetPeer.Process

namespace JetPeer

/-! ### Operations -/

/-- A result callback is handed to `AsyncRequest::execute`. -/
def Reply.IsCallback : Reply → Bool
  | .callback _ => true
  | _ => false

/-- An operation of the asynchronous API. -/
def Call.Asynchronous : Call → Bool
  | .add _ _ _ _ _ _ reply | .addFetch _ _ _ reply | .remove _ _ _ reply
  | .removeFetch _ _ reply | .request _ _ _ reply =>
      match reply with
      | .await => false
      | _ => true
  | _ => false

/-- The operation comes to `execute` with a result callback.  A removal of the
empty path returns before. -/
def Call.Issues : Call → Bool
  | .add _ _ _ _ _ _ reply | .addFetch _ _ _ reply | .removeFetch _ _ reply
  | .request _ _ _ reply => reply.IsCallback
  | .remove _ _ path reply => path ≠ "" && reply.IsCallback
  | _ => false

/-- An operation of the asynchronous API, and how its send ends: it is accepted
on a connected socket, or throws. -/
structure AsyncOperation where
  call : Call
  asynchronous : call.Asynchronous
  accepted : Bool := true
  exception : JsonrpcException

/-! ### One thread -/

/-- The thread that runs the path. -/
structure Context where
  shared : Shared
  /-- It holds `m_mtx_openRequestCbs`. -/
  holds : Bool := false
  /-- The result callbacks it has invoked, with their arguments. -/
  invoked : List (Closure × Json) := []

namespace Context

/-- `std::lock_guard < std::mutex >` on `m_mtx_openRequestCbs`. -/
def lock (c : Context) : Option Context :=
  if c.holds then none else some { c with holds := true }

def unlock (c : Context) : Context := { c with holds := false }

def apply (c : Context) (p : ℕ) (e : Event) : Context := { c with shared := c.shared.apply (p, e) }

def applyAll (c : Context) (es : List (ℕ × Event)) : Context :=
  { c with shared := c.shared.applyAll es }

/-- `sendMessage`. -/
def sends (c : Context) (p : ℕ) (o : AsyncOperation) : Bool :=
  o.accepted && (c.shared.peers p).connected

/-- `AsyncRequest::execute`: the critical section, the send, and the notifier
where the send throws.  Without a result callback there is only the send. -/
def execute (o : AsyncOperation) (c : Context) : Frame → Option Context
  | .execute cl doc =>
      c.lock.map fun c =>
        let id := c.shared.requests.sid + 1
        -- the entry is made under the lock, all else is done without it
        let c := (c.apply cl.peer (.opened id cl)).unlock
        if c.sends cl.peer o then c.apply cl.peer (.sent (withId doc id))
        -- the catch clause reaches into the table without a lock
        else c.apply cl.peer (.installed id ⟨cl.serial, o.exception⟩)
  | .send p doc _ => some (if c.sends p o then c.apply p (.sent doc) else c)
  | _ => some c

/-- An operation is started. -/
def start (c : Context) (o : AsyncOperation) : Option Context :=
  let (es, frames) := c.shared.call o.call
  frames.foldlM (execute o) (c.applyAll es)

/-- Which operations the user's result callbacks start, one after the other. -/
abbrev Behaviour := Closure → Json → List AsyncOperation

/-- A result callback is invoked: the lambda of the library rolls an add back
or sets the promise, then the user's callback runs. -/
def invoke (beh : Behaviour) (cause : ℕ) (c : Context) (cl : Closure) (result : Json) :
    Option Context :=
  let c := { c with invoked := c.invoked ++ [(cl, result)] }
  match cl.callback with
  | none => some (c.apply cl.peer (.fulfilled cl.serial result))
  | some _ =>
      (beh cl result).foldlM start
        (c.applyAll (Shared.answerAdd cl.peer cause cl.item cl.serial result))

/-- `AsyncRequest::handleResult` with the id already read: the lock is given
back before the callback is invoked. -/
def handleResult (beh : Behaviour) (p : ℕ) (id : UInt32) (data : Json) (c : Context) :
    Option Context :=
  c.lock.bind fun c =>
    match c.shared.requests.take id with
    | none => some c.unlock
    | some (r, _) =>
        let c := (c.apply p (.completed id)).unlock
        match r.responseCallback with
        | none => some c
        | some cl => c.invoke beh p cl data

/-- One turn of the loop in `clear`. -/
def cancel (beh : Behaviour) (p : ℕ) (c : Context) (id : UInt32) : Option Context :=
  match c.shared.requests.callback id with
  | none => some c
  | some cl => c.invoke beh p cl (cancelResponse id)

/-- `AsyncRequest::clear`: the lock is held over the loop. -/
def clear (beh : Behaviour) (p : ℕ) (ids : List UInt32) (c : Context) : Option Context :=
  c.lock.bind fun c =>
    (ids.foldlM (cancel beh p) c).map fun c => (c.apply p .cancelled).unlock

end Context

/-! ### Paths -/

/-- The paths that invoke result callbacks. -/
inductive CallbackPath where
  /-- A response has come to the peer. -/
  | response (p : ℕ) (data : Json)
  /-- The notifier of a send that threw. -/
  | deferred (p : ℕ) (id : UInt32) (e : JsonrpcException)
  /-- `stop()`, with the order its `unordered_map` is walked in. -/
  | clear (p : ℕ) (ids : List UInt32)

namespace CallbackPath

/-- The path is run. -/
def follow (beh : Context.Behaviour) (c : Context) : CallbackPath → Option Context
  | .response p data =>
      match responseId data with
      | .error _ => some c
      | .ok id => c.handleResult beh p id data
  | .deferred p id e => c.handleResult beh p id (errorResponse id e.code e.message)
  | .clear p ids => c.clear beh p ids

/-- The callbacks open at the start that the path is to invoke. -/
def due (sh : Shared) : CallbackPath → List (Closure × Json)
  | .response _ data =>
      match responseId data with
      | .error _ => []
      | .ok id => (sh.requests.callback id).toList.map fun cl => (cl, data)
  | .deferred _ id e =>
      (sh.requests.callback id).toList.map fun cl => (cl, errorResponse id e.code e.message)
  | .clear _ _ => sh.requests.cancelled

/-- `clear` walks over all open requests. -/
def Walks (sh : Shared) : CallbackPath → Prop
  | .clear _ ids => ids.Perm sh.requests.openRequestCbs.keys
  | _ => True

/-- No result callback that the path cancels starts an operation with a result
callback. -/
def Quiet (beh : Context.Behaviour) (sh : Shared) : CallbackPath → Prop
  | .clear _ _ => ∀ id cl, sh.requests.callback id = some cl → cl.callback ≠ none →
      ∀ o ∈ beh cl (cancelResponse id), o.call.Issues = false
  | _ => True

end CallbackPath

/-! ### An operation -/

namespace Context

variable {beh : Behaviour} {c u : Context} {o : AsyncOperation} {ops : List AsyncOperation}

/-- What an asynchronous call leaves to do: nothing, a send, or, with a result
callback, an `execute`. -/
theorem call_frames (sh : Shared) (o : AsyncOperation) :
    (o.call.Issues = false ∧
        ((sh.call o.call).2 = [] ∨ ∃ p doc, (sh.call o.call).2 = [.send p doc none])) ∨
      (o.call.Issues = true ∧ ∃ cl doc, (sh.call o.call).2 = [.execute cl doc]) := by
  obtain ⟨call, hasync, accepted, exception⟩ := o
  -- every operation with a request ends in `request`; what it leaves depends on the reply
  have hrequest : ∀ {p doc item} {reply : Reply}, reply ≠ .await →
      (reply.IsCallback = false ∧
          ((sh.request p doc item reply).2 = [] ∨
            ∃ q d, (sh.request p doc item reply).2 = [.send q d none])) ∨
        (reply.IsCallback = true ∧
          ∃ cl d, (sh.request p doc item reply).2 = [.execute cl d]) := by
    intro p doc item reply hreply
    cases reply with
    | ignore => exact .inl ⟨rfl, .inr ⟨p, doc, rfl⟩⟩
    | callback cb => exact .inr ⟨rfl, _, doc, rfl⟩
    | await => exact absurd rfl hreply
  have hwait : ∀ {reply : Reply}, (match reply with | .await => false | _ => true) = true →
      reply ≠ .await := by
    rintro reply h rfl
    cases h
  cases call with
  | add p kind path value params callback reply => exact hrequest (hwait hasync)
  | addFetch p m callback reply => exact hrequest (hwait hasync)
  | remove p kind path reply =>
      by_cases hpath : path = ""
      · exact .inl ⟨by simp [Call.Issues, hpath], .inl (by simp [Shared.call, hpath])⟩
      · have hframes : (sh.call (.remove p kind path reply)).2 =
            (sh.request p (requestDoc Word.remove (removeParams path)) none reply).2 := by
          simp [Shared.call, hpath]
        have hissues : (Call.remove p kind path reply).Issues = reply.IsCallback := by
          simp [Call.Issues, hpath]
        show ((Call.remove p kind path reply).Issues = false ∧ _) ∨
          ((Call.remove p kind path reply).Issues = true ∧ _)
        rw [hissues, hframes]
        exact hrequest (hwait hasync)
  | removeFetch p fetchId reply => exact hrequest (hwait hasync)
  | request p name params reply => exact hrequest (hwait hasync)
  | sendMessage p doc => cases hasync
  | stop p => cases hasync
  | destroy p => cases hasync
  | resume p => cases hasync

/-- A call changes registries, not the table of open requests. -/
theorem call_requests (sh : Shared) (call : Call) :
    (sh.applyAll (sh.call call).1).requests = sh.requests := by
  cases call with
  | remove p kind path reply =>
      by_cases hpath : path = ""
      · simp [Shared.call, Shared.applyAll, hpath]
      · simp [Shared.call, Shared.request, Shared.applyAll, Shared.apply, Event.onRequests, hpath]
  | _ => rfl

/-- Without a result callback an operation leaves the lock and the table
alone, whoever holds it. -/
theorem start_of_quiet (h : o.call.Issues = false) :
    ∃ u, c.start o = some u ∧ u.holds = c.holds ∧ u.invoked = c.invoked ∧
      u.shared.requests = c.shared.requests := by
  have hreq := call_requests c.shared o.call
  rcases call_frames c.shared o with ⟨-, hframes | ⟨p, doc, hframes⟩⟩ | ⟨hissues, -⟩
  · exact ⟨c.applyAll (c.shared.call o.call).1, by simp [start, hframes], rfl, rfl, hreq⟩
  · have hstart : c.start o = execute o (c.applyAll (c.shared.call o.call).1) (.send p doc none) :=
      by simp [start, hframes]
    rw [hstart]
    simp only [execute, Option.some.injEq, exists_eq_left']
    split
    · exact ⟨rfl, rfl, hreq⟩
    · exact ⟨rfl, rfl, hreq⟩
  · rw [h] at hissues
    cases hissues

/-- With one it needs the lock. -/
theorem start_of_issues (h : o.call.Issues = true) :
    ∃ cl doc, c.start o = execute o (c.applyAll (c.shared.call o.call).1) (.execute cl doc) := by
  rcases call_frames c.shared o with ⟨hquiet, -⟩ | ⟨-, cl, doc, hframes⟩
  · rw [h] at hquiet
    cases hquiet
  · exact ⟨cl, doc, by simp [start, hframes]⟩

/-- Where the thread does not hold the lock every operation goes through. -/
theorem start_of_free (h : c.holds = false) (o : AsyncOperation) :
    ∃ u, c.start o = some u ∧ u.holds = false ∧ u.invoked = c.invoked := by
  rcases hissues : o.call.Issues with - | -
  · obtain ⟨u, hu, hholds, hinvoked, -⟩ := start_of_quiet (c := c) hissues
    exact ⟨u, hu, hholds.trans h, hinvoked⟩
  · obtain ⟨cl, doc, hstart⟩ := start_of_issues (c := c) hissues
    have hlock : (c.applyAll (c.shared.call o.call).1).lock =
        some { c.applyAll (c.shared.call o.call).1 with holds := true } := by
      simp [lock, applyAll, h]
    rw [hstart]
    simp only [execute, hlock, Option.map_some, Option.some.injEq, exists_eq_left']
    split
    · exact ⟨rfl, rfl⟩
    · exact ⟨rfl, rfl⟩

/-- Where it does, an operation with a result callback never returns. -/
theorem start_of_held (h : c.holds = true) (hissues : o.call.Issues = true) :
    c.start o = none := by
  obtain ⟨cl, doc, hstart⟩ := start_of_issues (c := c) hissues
  rw [hstart]
  simp [execute, lock, applyAll, h]

/-! ### The operations of one callback -/

theorem starts_of_free (h : c.holds = false) (ops : List AsyncOperation) :
    ∃ u, ops.foldlM start c = some u ∧ u.holds = false ∧ u.invoked = c.invoked := by
  induction ops generalizing c with
  | nil => exact ⟨c, rfl, h, rfl⟩
  | cons o ops ih =>
      obtain ⟨u, hu, hholds, hinvoked⟩ := start_of_free h o
      obtain ⟨v, hv, hholds', hinvoked'⟩ := ih hholds
      exact ⟨v, by simp [hu, hv], hholds', hinvoked'.trans hinvoked⟩

theorem starts_of_quiet (h : ∀ o ∈ ops, o.call.Issues = false) :
    ∃ u, ops.foldlM start c = some u ∧ u.holds = c.holds ∧ u.invoked = c.invoked ∧
      u.shared.requests = c.shared.requests := by
  induction ops generalizing c with
  | nil => exact ⟨c, rfl, rfl, rfl, rfl⟩
  | cons o ops ih =>
      obtain ⟨u, hu, hholds, hinvoked, hreq⟩ :=
        start_of_quiet (c := c) (h o List.mem_cons_self)
      obtain ⟨v, hv, hholds', hinvoked', hreq'⟩ :=
        ih (c := u) fun o ho => h o (List.mem_cons_of_mem _ ho)
      exact ⟨v, by simp [hu, hv], hholds'.trans hholds, hinvoked'.trans hinvoked,
        hreq'.trans hreq⟩

/-- While the lock is held the operations go through only if none of them has
a result callback. -/
theorem quiet_of_starts (h : c.holds = true) (hu : ops.foldlM start c = some u) :
    ∀ o ∈ ops, o.call.Issues = false := by
  induction ops generalizing c with
  | nil => exact fun o ho => absurd ho List.not_mem_nil
  | cons o ops ih =>
      have hquiet : o.call.Issues = false := by
        by_contra hissues
        rw [Bool.not_eq_false] at hissues
        simp [start_of_held h hissues] at hu
      obtain ⟨v, hv, hholds, -, -⟩ := start_of_quiet (c := c) hquiet
      -- a quiet operation does not give the lock back, so the next one meets it again
      have hrest : ops.foldlM start v = some u := by simpa [hv] using hu
      intro o' ho'
      rcases List.mem_cons.mp ho' with rfl | ho'
      · exact hquiet
      · exact ih (hholds.trans h) hrest o' ho'

/-! ### A callback is invoked -/

/-- The operations start from here, the rollback of the library's lambda
included. -/
def rolledBack (c : Context) (cause : ℕ) (cl : Closure) (result : Json) : Context :=
  { c with invoked := c.invoked ++ [(cl, result)] }.applyAll
    (Shared.answerAdd cl.peer cause cl.item cl.serial result)

variable {cause : ℕ} {cl : Closure} {result : Json}

theorem rolledBack_requests :
    (c.rolledBack cause cl result).shared.requests = c.shared.requests := by
  rcases hitem : cl.item with - | item
  · simp [rolledBack, applyAll, Shared.answerAdd, Shared.applyAll, hitem]
  · simp [rolledBack, applyAll, Shared.answerAdd, Shared.applyAll, Shared.apply,
      Event.onRequests, hitem]

theorem invoke_user (h : cl.callback ≠ none) :
    c.invoke beh cause cl result =
      (beh cl result).foldlM start (c.rolledBack cause cl result) := by
  rcases hcb : cl.callback with - | cb
  · exact absurd hcb h
  · simp [invoke, hcb, rolledBack]

theorem invoke_sync (beh : Behaviour) (c : Context) (cause : ℕ) (result : Json)
    (h : cl.callback = none) :
    ∃ u, c.invoke beh cause cl result = some u ∧ u.holds = c.holds ∧
      u.invoked = c.invoked ++ [(cl, result)] ∧ u.shared.requests = c.shared.requests := by
  refine ⟨{ c with invoked := c.invoked ++ [(cl, result)] }.apply cl.peer
    (.fulfilled cl.serial result), by simp [invoke, h], rfl, rfl, rfl⟩

theorem invoke_of_free (h : c.holds = false) (beh : Behaviour) (cause : ℕ) (cl : Closure)
    (result : Json) : ∃ u, c.invoke beh cause cl result = some u ∧ u.holds = false ∧
      u.invoked = c.invoked ++ [(cl, result)] := by
  rcases hcb : cl.callback with - | cb
  · obtain ⟨u, hu, hholds, hinvoked, -⟩ := invoke_sync beh c cause result hcb
    exact ⟨u, hu, hholds.trans h, hinvoked⟩
  · rw [invoke_user (by simp [hcb])]
    exact starts_of_free (c := c.rolledBack cause cl result) h _

theorem invoke_of_quiet (c : Context) (cause : ℕ)
    (h : cl.callback ≠ none → ∀ o ∈ beh cl result, o.call.Issues = false) :
    ∃ u, c.invoke beh cause cl result = some u ∧ u.holds = c.holds ∧
      u.invoked = c.invoked ++ [(cl, result)] ∧ u.shared.requests = c.shared.requests := by
  rcases hcb : cl.callback with - | cb
  · exact invoke_sync beh c cause result hcb
  · have huser : cl.callback ≠ none := by simp [hcb]
    rw [invoke_user huser]
    obtain ⟨u, hu, hholds, hinvoked, hreq⟩ :=
      starts_of_quiet (c := c.rolledBack cause cl result) (h huser)
    exact ⟨u, hu, hholds, hinvoked, hreq.trans rolledBack_requests⟩

theorem quiet_of_invoke (h : c.holds = true) (hu : c.invoke beh cause cl result = some u)
    (huser : cl.callback ≠ none) : ∀ o ∈ beh cl result, o.call.Issues = false := by
  rw [invoke_user huser] at hu
  exact quiet_of_starts (c := c.rolledBack cause cl result) h hu

/-! ### `handleResult` -/

/-- The lock is free again when the callback is invoked, so it is invoked and
returns, whatever it starts. -/
theorem handleResult_completes (beh : Behaviour) (h : c.holds = false) (p : ℕ) (id : UInt32)
    (data : Json) :
    ∃ u, c.handleResult beh p id data = some u ∧ u.holds = false ∧
      u.invoked =
        c.invoked ++ (c.shared.requests.callback id).toList.map fun cl => (cl, data) := by
  have hlock : c.lock = some { c with holds := true } := by simp [lock, h]
  simp only [handleResult, hlock, Option.bind_some]
  rcases hlookup : c.shared.requests.openRequestCbs.lookup id with - | r
  · refine ⟨c.unlock, ?_, rfl, ?_⟩
    · simp [RequestTable.take, hlookup, unlock]
    · simp [unlock, RequestTable.callback, hlookup]
  · rw [RequestTable.callback_of_lookup hlookup]
    simp only [RequestTable.take, hlookup, Option.map_some]
    rcases hcb : r.responseCallback with - | cl
    · exact ⟨_, rfl, rfl, by simp [unlock, apply]⟩
    · have hfree : ({ c with holds := true }.apply p (.completed id)).unlock.holds = false := rfl
      obtain ⟨u, hu, hholds, hinvoked⟩ := invoke_of_free hfree beh p cl data
      exact ⟨u, hu, hholds, hinvoked⟩

/-! ### `clear` -/

/-- The callbacks the loop is to invoke for `ids`. -/
def cancels (sh : Shared) (ids : List UInt32) : List (Closure × Json) :=
  ids.filterMap fun id => (sh.requests.callback id).map fun cl => (cl, cancelResponse id)

/-- No callback kept under one of `ids` starts an operation with a result
callback. -/
def QuietAt (beh : Behaviour) (sh : Shared) (ids : List UInt32) : Prop :=
  ∀ id ∈ ids, ∀ cl, sh.requests.callback id = some cl → cl.callback ≠ none →
    ∀ o ∈ beh cl (cancelResponse id), o.call.Issues = false

theorem QuietAt.of_requests {sh sh' : Shared} {ids : List UInt32}
    (h : QuietAt beh sh ids) (hreq : sh'.requests = sh.requests) : QuietAt beh sh' ids := by
  intro id hid cl hcl
  rw [hreq] at hcl
  exact h id hid cl hcl

/-- A turn of the loop, where the callback is quiet. -/
theorem cancel_of_quiet {p : ℕ} {id : UInt32} (h : QuietAt beh c.shared [id]) :
    ∃ u, c.cancel beh p id = some u ∧ u.holds = c.holds ∧
      u.invoked = c.invoked ++ cancels c.shared [id] ∧
      u.shared.requests = c.shared.requests := by
  rcases hcl : c.shared.requests.callback id with - | cl
  · exact ⟨c, by simp [cancel, hcl], rfl, by simp [cancels, hcl], rfl⟩
  · obtain ⟨u, hu, hholds, hinvoked, hreq⟩ := invoke_of_quiet c p (h id List.mem_cons_self cl hcl)
    exact ⟨u, by simpa [cancel, hcl] using hu, hholds, by simpa [cancels, hcl] using hinvoked,
      hreq⟩

/-- A turn that ends while the lock is held had a quiet callback. -/
theorem quiet_of_cancel {p : ℕ} {id : UInt32} (h : c.holds = true)
    (hu : c.cancel beh p id = some u) : QuietAt beh c.shared [id] := by
  intro id' hid' cl hcl huser
  obtain rfl : id' = id := List.mem_singleton.mp hid'
  have hinvoke : c.invoke beh p cl (cancelResponse id') = some u := by
    simpa [cancel, hcl] using hu
  exact quiet_of_invoke h hinvoke huser

/-- The loop, where all callbacks are quiet: the table it walks over stays as
it is. -/
theorem cancels_of_quiet {p : ℕ} {ids : List UInt32} (h : QuietAt beh c.shared ids) :
    ∃ u, ids.foldlM (cancel beh p) c = some u ∧ u.holds = c.holds ∧
      u.invoked = c.invoked ++ cancels c.shared ids := by
  induction ids generalizing c with
  | nil => exact ⟨c, rfl, rfl, (List.append_nil _).symm⟩
  | cons id ids ih =>
      have hhead : QuietAt beh c.shared [id] := by
        intro i hi
        exact h i (List.mem_cons.mpr (.inl (List.mem_singleton.mp hi)))
      have htail : QuietAt beh c.shared ids := fun i hi => h i (List.mem_cons_of_mem _ hi)
      obtain ⟨u, hu, hholds, hinvoked, hreq⟩ := cancel_of_quiet (p := p) hhead
      obtain ⟨v, hv, hholds', hinvoked'⟩ := ih (c := u) (htail.of_requests hreq)
      refine ⟨v, by simp [hu, hv], hholds'.trans hholds, ?_⟩
      -- the rest of the loop finds the table as it was in the beginning
      have hsame : cancels u.shared ids = cancels c.shared ids := by simp [cancels, hreq]
      have hsplit : cancels c.shared (id :: ids) =
          cancels c.shared [id] ++ cancels c.shared ids :=
        List.filterMap_append (l := [id])
      rw [hinvoked', hinvoked, hsame, hsplit, List.append_assoc]

/-- The loop gets to its end only if all callbacks are quiet. -/
theorem quiet_of_cancels {p : ℕ} {ids : List UInt32} (h : c.holds = true)
    (hu : ids.foldlM (cancel beh p) c = some u) : QuietAt beh c.shared ids := by
  induction ids generalizing c with
  | nil => exact fun id hid => absurd hid List.not_mem_nil
  | cons id ids ih =>
      obtain ⟨v, hv, hrest⟩ : ∃ v, c.cancel beh p id = some v ∧
          ids.foldlM (cancel beh p) v = some u := by
        simpa [Option.bind_eq_some_iff] using hu
      have hhead := quiet_of_cancel h hv
      obtain ⟨v', hv', hholds, -, hreq⟩ := cancel_of_quiet (p := p) hhead
      -- the turn that returned is the quiet one, so lock and table are as before it
      obtain rfl : v = v' := Option.some.inj (hv.symm.trans hv')
      have htail := (ih (hholds.trans h) hrest).of_requests hreq.symm
      intro i hi
      rcases List.mem_cons.mp hi with rfl | hi
      · exact hhead i List.mem_cons_self
      · exact htail i hi

/-- In whatever order the table is walked, the loop is to invoke what is open. -/
theorem cancels_perm {sh : Shared} {ids : List UInt32}
    (h : ids.Perm sh.requests.openRequestCbs.keys) :
    (cancels sh ids).Perm sh.requests.cancelled := by
  have hkeys : cancels sh sh.requests.openRequestCbs.keys = sh.requests.cancelled := by
    show ((sh.requests.openRequestCbs.entries.map Sigma.fst).filterMap _) = _
    rw [List.filterMap_map]
    refine List.filterMap_congr fun e he => ?_
    show (sh.requests.callback e.1).map _ = _
    rw [RequestTable.callback_of_lookup (AList.mem_lookup_iff.mpr he)]
  rw [← hkeys]
  exact h.filterMap _

end Context

/-! ### The paths -/

open Context

variable {beh : Behaviour} {c : Context} {path : CallbackPath}

theorem follow_response (beh : Behaviour) (h : c.holds = false) (p : ℕ) (data : Json) :
    ∃ u, (CallbackPath.response p data).follow beh c = some u ∧ u.holds = false ∧
      u.invoked = c.invoked ++ (CallbackPath.response p data).due c.shared := by
  rcases hid : responseId data with e | id
  · exact ⟨c, by simp [CallbackPath.follow, hid], h, by simp [CallbackPath.due, hid]⟩
  · obtain ⟨u, hu, hholds, hinvoked⟩ := handleResult_completes beh h p id data
    exact ⟨u, by simpa [CallbackPath.follow, hid] using hu, hholds,
      by simpa [CallbackPath.due, hid] using hinvoked⟩

theorem follow_clear (h : c.holds = false) {p : ℕ} {ids : List UInt32}
    (hquiet : QuietAt beh c.shared ids) :
    ∃ u, (CallbackPath.clear p ids).follow beh c = some u ∧ u.holds = false ∧
      u.invoked = c.invoked ++ cancels c.shared ids := by
  have hlock : c.lock = some { c with holds := true } := by simp [lock, h]
  obtain ⟨u, hu, -, hinvoked⟩ :=
    cancels_of_quiet (p := p) (c := { c with holds := true }) hquiet
  refine ⟨(u.apply p .cancelled).unlock, ?_, rfl, hinvoked⟩
  simp [CallbackPath.follow, Context.clear, hlock, hu]

theorem quiet_of_follow_clear (h : c.holds = false) {p : ℕ} {ids : List UInt32} {u : Context}
    (hu : (CallbackPath.clear p ids).follow beh c = some u) : QuietAt beh c.shared ids := by
  have hlock : c.lock = some { c with holds := true } := by simp [lock, h]
  simp only [CallbackPath.follow, Context.clear, hlock, Option.bind_some,
    Option.map_eq_some_iff] at hu
  obtain ⟨v, hv, -⟩ := hu
  exact quiet_of_cancels (c := { c with holds := true }) rfl hv

/-- `QuietAt` over all ids there are. -/
theorem quiet_iff_quietAt {p : ℕ} {ids : List UInt32}
    (h : ids.Perm c.shared.requests.openRequestCbs.keys) :
    (CallbackPath.clear p ids).Quiet beh c.shared ↔ QuietAt beh c.shared ids := by
  constructor
  · exact fun hquiet id _ cl hcl => hquiet id cl hcl
  · intro hquiet id cl hcl
    refine hquiet id (h.mem_iff.mpr ?_) cl hcl
    by_contra hid
    have hnone : c.shared.requests.openRequestCbs.lookup id = none :=
      AList.lookup_eq_none.mpr hid
    simp [RequestTable.callback, hnone] at hcl

/-- **Result callbacks may start requests, except in `clear`.**  A path that
invokes result callbacks comes to its end, with every callback that was open
and due at its start invoked once, if and only if it is not `clear` or no
result callback it cancels starts an operation with a result callback. -/
theorem path_completes_iff (beh : Behaviour) (c : Context) (path : CallbackPath)
    (hfree : c.holds = false) (hwalks : path.Walks c.shared) :
    (∃ u, path.follow beh c = some u ∧ u.holds = false ∧
        u.invoked.Perm (c.invoked ++ path.due c.shared)) ↔
      path.Quiet beh c.shared := by
  cases path with
  | response p data =>
      refine iff_of_true ?_ trivial
      obtain ⟨u, hu, hholds, hinvoked⟩ := follow_response beh hfree p data
      exact ⟨u, hu, hholds, hinvoked ▸ List.Perm.refl _⟩
  | deferred p id e =>
      refine iff_of_true ?_ trivial
      obtain ⟨u, hu, hholds, hinvoked⟩ :=
        handleResult_completes beh hfree p id (errorResponse id e.code e.message)
      exact ⟨u, hu, hholds, hinvoked ▸ List.Perm.refl _⟩
  | clear p ids =>
      rw [quiet_iff_quietAt hwalks]
      constructor
      · rintro ⟨u, hu, -, -⟩
        exact quiet_of_follow_clear hfree hu
      · intro hquiet
        obtain ⟨u, hu, hholds, hinvoked⟩ := follow_clear (p := p) hfree hquiet
        refine ⟨u, hu, hholds, ?_⟩
        rw [hinvoked]
        exact (cancels_perm hwalks).append_left _

/-- A callback that sends its request once more. -/
def retry : Behaviour := fun cl _ =>
  [{ call := .request cl.peer "info" .null (.callback 7)
     asynchronous := rfl
     exception := ⟨-1, "could not send message: 'Broken pipe'"⟩ }]

/-- One request with a result callback is open. -/
def oneOpen : Context where
  shared := ({} : Shared).apply (0, .opened 1 ⟨0, none, 0, some 7⟩)

/-- A deferred send error may be answered with a new request. -/
theorem path_completes_iff_retry :
    ∃ u, (CallbackPath.deferred 0 1 ⟨-1, "too long"⟩).follow retry oneOpen = some u ∧
      u.holds = false ∧
      u.invoked.Perm
        (oneOpen.invoked ++ (CallbackPath.deferred 0 1 ⟨-1, "too long"⟩).due oneOpen.shared) :=
  (path_completes_iff retry oneOpen (.deferred 0 1 ⟨-1, "too long"⟩) rfl trivial).mpr trivial

/-- **In `clear` it must not.**  One request is open, its callback sends it once
more, and `stop()` waits for the lock it holds itself. -/
theorem retry_relocks_in_clear :
    ¬ ∀ (beh : Behaviour) (c : Context) (path : CallbackPath), c.holds = false →
      path.Walks c.shared →
        ∃ u, path.follow beh c = some u ∧ u.holds = false ∧
          u.invoked.Perm (c.invoked ++ path.due c.shared) := by
  intro h
  have hwalks : (CallbackPath.clear 0 [1]).Walks oneOpen.shared := List.Perm.refl [1]
  have hquiet : (CallbackPath.clear 0 [1]).Quiet retry oneOpen.shared := by
    rw [quiet_iff_quietAt hwalks]
    obtain ⟨u, hu, -, -⟩ := h retry oneOpen (.clear 0 [1]) rfl hwalks
    exact quiet_of_follow_clear rfl hu
  exact absurd (hquiet 1 ⟨0, none, 0, some 7⟩ (by decide) (by decide)
    _ List.mem_cons_self) (by decide)

end JetPeer
