/-
JetPeer/Waiting.lean

`lib/syncrequest.cpp`: the threads that wait in `executeSync`.

A `SyncRequest` leaves two frames behind, the wait and under it the
destructor, which erases the entry of the request.  The result comes by way of
three threads at most: the callback stands in the table, a thread has taken it
out and is about to invoke it, or the promise is set.  `WaitInv` says that no
waiting thread has lost its place in this chain (`woken`), and what it takes
to keep it: an id that a `SyncRequest` still has is not given to a second
request (`Unshared`).

The second half of the invariant is about who may wait for whom.  A callback
taken out of the table may lie under a wait of the thread that took it, and
then it is not invoked before that wait is over.  But what a thread asks for
later has a higher number (`Nested`), so waits do not form a cycle
(`settled_waits`), and when `stop()` has handed out all callbacks, every thread
that waited is through (`stop_releases`).
-/
import JetPeer.Isolation
import JetPeer.Quiescence

namespace JetPeer

open Runs

/-! ### Waits -/

/-- The number of the request a frame issues or waits for. -/
def Frame.asks : Frame → Option ℕ
  | .execute cl _ => some cl.serial
  | .await _ _ serial => some serial
  | _ => none

/-- The number of the request whose promise a frame is about to set. -/
def Frame.wakes : Frame → Option ℕ
  | .invoke _ cl _ => if cl.callback = none then some cl.serial else none
  | _ => none

/-- A frame that is neither the wait nor the destructor of a `SyncRequest`. -/
def Frame.Plain : Frame → Prop
  | .await .. | .destroySync .. => False
  | _ => True

def handedOf (stack : List Frame) : List ℕ := stack.filterMap Frame.wakes

/-- The promises some thread is about to set. -/
def handed (s : Process) : List ℕ := s.callStacks.flatMap handedOf

/-- The ids `SyncRequest` objects have, with the request that is waited for,
as long as it is. -/
def reserved : List Frame → List (UInt32 × Option ℕ)
  | .await _ _ serial :: .destroySync _ id :: rest => (id, some serial) :: reserved rest
  | .destroySync _ id :: rest => (id, none) :: reserved rest
  | _ :: rest => reserved rest
  | [] => []

def reservations (s : Process) : List (UInt32 × Option ℕ) := s.callStacks.flatMap reserved

/-- Under each wait is the destructor of its request. -/
def Paired : List Frame → Prop
  | .await .. :: .destroySync p id :: rest => Paired (.destroySync p id :: rest)
  | .await .. :: _ => False
  | _ :: rest => Paired rest
  | [] => True

/-- How two frames of a stack stand, the upper one first: only the top issues
requests, and a request that is asked for above a callback was issued after
the one the callback belongs to. -/
def Nested (f g : Frame) : Prop :=
  (∀ cl doc, g ≠ .execute cl doc) ∧ ∀ k j, f.asks = some k → g.wakes = some j → j < k

/-- A new request gets an id that no `SyncRequest` has. -/
def Unshared (s : Process) (_ : Shared) : ℕ × Event → Prop
  | (_, .opened id _) => id ∉ (reservations s).map Prod.fst
  | _ => True

instance (s : Process) (sh : Shared) : ∀ pe, Decidable (Unshared s sh pe)
  | (_, .opened id _) => inferInstanceAs (Decidable (id ∉ (reservations s).map Prod.fst))
  | (_, .registered ..) | (_, .removed _) | (_, .answered ..) | (_, .cleared _) | (_, .issued)
  | (_, .installed ..) | (_, .completed _) | (_, .cancelled) | (_, .destroyed _)
  | (_, .fulfilled ..) | (_, .connected) | (_, .disconnected) | (_, .arrived _) | (_, .handled _)
  | (_, .left) | (_, .called ..) | (_, .sent _) => .isTrue trivial

section

variable {sh : Shared} {p : ℕ} {e : Event} {es : List (ℕ × Event)} {f : Frame}
  {stack rest new frames : List Frame} {r : Effect} {a : Action} {id : UInt32}

theorem handedOf_append (l l' : List Frame) : handedOf (l ++ l') = handedOf l ++ handedOf l' :=
  List.filterMap_append

theorem reserved_cons_plain (h : f.Plain) : reserved (f :: rest) = reserved rest := by
  cases f <;> first | exact h.elim | rfl

theorem reserved_append_plain (h : ∀ f ∈ new, f.Plain) :
    reserved (new ++ rest) = reserved rest := by
  induction new with
  | nil => rfl
  | cons f new ih =>
      obtain ⟨hf, hnew⟩ := List.forall_mem_cons.mp h
      rw [List.cons_append, reserved_cons_plain hf, ih hnew]

theorem paired_cons_plain (h : f.Plain) : Paired (f :: rest) ↔ Paired rest := by
  cases f <;> first | exact h.elim | exact Iff.rfl

/-- An event that has nothing to do with the open requests and promises. -/
def Event.KeepsRequests : Event → Prop
  | .opened .. | .completed _ | .cancelled | .destroyed _ | .fulfilled .. => False
  | _ => True

/-- A frame that has nothing to do with them. -/
def Frame.Silent : Frame → Prop
  | .execute .. | .await .. | .destroySync .. | .invoke .. => False
  | _ => True

theorem Frame.Silent.plain (h : f.Silent) : f.Plain := by
  cases f <;> first | exact h.elim | trivial

theorem Frame.Silent.asks_eq (h : f.Silent) : f.asks = none := by
  cases f <;> first | exact h.elim | rfl

theorem Frame.Silent.wakes_eq (h : f.Silent) : f.wakes = none := by
  cases f <;> first | exact h.elim | rfl

theorem callback_apply_keeps (he : e.KeepsRequests) :
    (sh.apply (p, e)).requests.callback id = sh.requests.callback id := by
  cases e with
  | installed i n => exact RequestTable.callback_installNotifier n
  | opened | completed | cancelled | destroyed | fulfilled => exact he.elim
  | _ => rfl

theorem promises_apply_keeps (he : e.KeepsRequests) : (sh.apply (p, e)).promises = sh.promises := by
  cases e <;> first | exact he.elim | rfl

theorem callback_applyAll_keeps (hes : ∀ pe ∈ es, pe.2.KeepsRequests) :
    (sh.applyAll es).requests.callback id = sh.requests.callback id := by
  induction es generalizing sh with
  | nil => rfl
  | cons pe es ih =>
      obtain ⟨he, hes⟩ := List.forall_mem_cons.mp hes
      exact (ih hes).trans (callback_apply_keeps he)

theorem promises_applyAll_keeps (hes : ∀ pe ∈ es, pe.2.KeepsRequests) :
    (sh.applyAll es).promises = sh.promises := by
  induction es generalizing sh with
  | nil => rfl
  | cons pe es ih =>
      obtain ⟨he, hes⟩ := List.forall_mem_cons.mp hes
      exact (ih hes).trans (promises_apply_keeps he)

theorem length_issuers_applyAll : sh.issuers.length ≤ (sh.applyAll es).issuers.length := by
  induction es generalizing sh with
  | nil => exact le_rfl
  | cons pe es ih =>
      obtain ⟨q, e⟩ := pe
      refine le_trans ?_ ih
      cases e with
      | issued => exact (List.length_append ..).symm ▸ Nat.le_add_right _ _
      | _ => exact le_rfl

/-- A callback of a `SyncRequest` that leaves the table is handed over to the
frames pushed, and what these invoke was in the table. -/
structure Hands (sh : Shared) (es : List (ℕ × Event)) (new : List Frame) : Prop where
  kept : ∀ id cl, sh.requests.callback id = some cl → cl.callback = none →
    (sh.applyAll es).requests.callback id = some cl ∨ cl.serial ∈ handedOf new
  old : ∀ id cl, (sh.applyAll es).requests.callback id = some cl →
    sh.requests.callback id = some cl
  promises : ∀ k, (sh.promises k).isSome → ((sh.applyAll es).promises k).isSome
  plain : ∀ f ∈ new, f.Plain ∧ f.asks = none
  taken : ∀ f ∈ new, ∀ k, f.wakes = some k →
    ∃ id cl, sh.requests.callback id = some cl ∧ cl.serial = k

theorem Hands.of_silent (hes : ∀ pe ∈ es, pe.2.KeepsRequests) (hnew : ∀ f ∈ new, f.Silent) :
    Hands sh es new where
  kept id cl hcl _ := .inl ((callback_applyAll_keeps hes).trans hcl)
  old id cl hcl := (callback_applyAll_keeps hes).symm.trans hcl
  promises k hk := by
    rw [promises_applyAll_keeps hes]
    exact hk
  plain f hf := ⟨(hnew f hf).plain, (hnew f hf).asks_eq⟩
  taken f hf k hk := by
    rw [(hnew f hf).wakes_eq] at hk
    cases hk

/-- An event before all others. -/
theorem Hands.cons (h : Hands (sh.apply (p, e)) es new) (he : e.KeepsRequests) :
    Hands sh ((p, e) :: es) new where
  kept id cl hcl := h.kept id cl ((callback_apply_keeps he).trans hcl)
  old id cl hcl := (callback_apply_keeps he).symm.trans (h.old id cl hcl)
  promises k hk := by
    refine h.promises k ?_
    rw [promises_apply_keeps he]
    exact hk
  plain := h.plain
  taken f hf k hk := by
    obtain ⟨id, cl, hcl, rfl⟩ := h.taken f hf k hk
    exact ⟨id, cl, (callback_apply_keeps he).symm.trans hcl, rfl⟩

theorem Hands.push (h : Hands sh es new) (hframes : ∀ f ∈ frames, f.Silent) :
    Hands sh es (new ++ frames) where
  kept id cl hcl hsync := by
    rcases h.kept id cl hcl hsync with hkept | hhanded
    · exact .inl hkept
    · rw [handedOf_append]
      exact .inr (List.mem_append_left _ hhanded)
  old := h.old
  promises := h.promises
  plain f hf := by
    rcases List.mem_append.mp hf with hf | hf
    · exact h.plain f hf
    · exact ⟨(hframes f hf).plain, (hframes f hf).asks_eq⟩
  taken f hf k hk := by
    rcases List.mem_append.mp hf with hf | hf
    · exact h.taken f hf k hk
    · rw [(hframes f hf).wakes_eq] at hk
      cases hk

theorem wakes_invoke {cause k : ℕ} {cl : Closure} {result : Json}
    (h : (Frame.invoke cause cl result).wakes = some k) : cl.callback = none ∧ cl.serial = k := by
  obtain ⟨hcb, hk⟩ := Option.ite_none_right_eq_some.mp h
  exact ⟨hcb, Option.some.inj hk⟩

theorem mem_handedOf {cause : ℕ} {cl : Closure} {result : Json} (hcb : cl.callback = none)
    (h : .invoke cause cl result ∈ stack) : cl.serial ∈ handedOf stack :=
  List.mem_filterMap.mpr ⟨_, h, if_pos hcb⟩

theorem hands_complete {result : Json} :
    Hands sh (sh.complete p id result).1 (sh.complete p id result).2 := by
  unfold Shared.complete
  rcases ht : sh.requests.take id with - | ⟨request, table⟩
  · exact Hands.of_silent (by simp) (by simp)
  · have hcallback := RequestTable.callback_of_lookup (RequestTable.take_eq_some.mp ht).1
    constructor
    · intro i cl hcl hsync
      by_cases hi : i = id
      · subst hi
        have hmem : .invoke p cl result ∈
            request.responseCallback.toList.map fun cl => Frame.invoke p cl result := by
          rw [← hcallback, hcl]
          exact List.mem_cons_self
        exact .inr (mem_handedOf hsync hmem)
      · exact .inl ((RequestTable.callback_erase_of_ne hi).trans hcl)
    · intro i cl hcl
      by_cases hi : i = id
      · subst hi
        have hnone := @RequestTable.callback_erase_self _ sh.requests i
        exact absurd (hnone.symm.trans hcl) (by simp)
      · exact (RequestTable.callback_erase_of_ne hi).symm.trans hcl
    · exact fun k hk => hk
    · intro f hf
      obtain ⟨cl, -, rfl⟩ := List.mem_map.mp hf
      exact ⟨trivial, rfl⟩
    · intro f hf k hk
      obtain ⟨cl, hcl, rfl⟩ := List.mem_map.mp hf
      refine ⟨id, cl, ?_, ?_⟩
      · rw [hcallback]
        simpa using hcl
      · exact (wakes_invoke hk).2

theorem hands_cancelled {ids : List UInt32} (h : ids.Perm sh.requests.openRequestCbs.keys) :
    Hands sh [(p, .cancelled)] (sh.cancelFrames p ids) where
  kept i cl hcl hsync := by
    have hmem : .invoke p cl (cancelResponse i) ∈ sh.cancelFrames p ids := by
      refine List.mem_filterMap.mpr ⟨i, h.mem_iff.mpr (callback_mem_keys hcl), ?_⟩
      rw [hcl]
      rfl
    exact .inr (mem_handedOf hsync hmem)
  old i cl hcl := absurd (RequestTable.callback_clear.symm.trans hcl) (by simp)
  promises k hk := hk
  plain f hf := by
    obtain ⟨i, -, hi⟩ := List.mem_filterMap.mp hf
    obtain ⟨cl, -, rfl⟩ := Option.map_eq_some_iff.mp hi
    exact ⟨trivial, rfl⟩
  taken f hf k hk := by
    obtain ⟨i, -, hi⟩ := List.mem_filterMap.mp hf
    obtain ⟨cl, hcl, rfl⟩ := Option.map_eq_some_iff.mp hi
    exact ⟨i, cl, hcl, (wakes_invoke hk).2⟩

theorem hands_callFetch {fetchId : FetchId} {fetcher : Fetcher} {params : Json} {status : Int} :
    Hands sh (Shared.callFetch p fetchId fetcher params status).1
      (Shared.callFetch p fetchId fetcher params status).2 := by
  unfold Shared.callFetch
  split
  · exact Hands.of_silent (by simp) (by simp)
  · exact Hands.of_silent (by simp [Event.KeepsRequests]) (by simp [Frame.Silent])

theorem hands_serve {callback : Option Callback} :
    Hands sh (Shared.serve p callback).1 (Shared.serve p callback).2 := by
  refine Hands.of_silent (by simp [Shared.serve]) ?_
  cases callback <;> simp [Shared.serve, Frame.Silent]

theorem hands_handleMessage {m : Json} (h : sh.handleMessage p m = some r) :
    Hands sh r.1 r.2 := by
  unfold Shared.handleMessage at h
  split at h
  next => cases h
  all_goals obtain rfl := Option.some.inj h
  next => exact hands_complete
  next => exact hands_callFetch
  next => exact hands_serve
  next => exact hands_serve
  next => exact Hands.of_silent (by simp) (by simp)

theorem hands_receive (h : sh.receive p = some r) : Hands sh r.1 r.2 := by
  unfold Shared.receive at h
  split at h
  next => cases h
  next =>
    obtain rfl := Option.some.inj h
    exact Hands.of_silent (by simp [Event.KeepsRequests]) (by simp)
  next m ms htel =>
    split at h
    next =>
      obtain rfl := Option.some.inj h
      exact Hands.of_silent (by simp [Event.KeepsRequests]) (by simp)
    next es frames hm =>
      obtain rfl := Option.some.inj h
      have htables : ((sh.apply (p, .handled m)).peers p).tables = (sh.peers p).tables := by
        rw [Shared.tables_apply, if_pos rfl]
        rfl
      have hm := (@handleMessage_congr sh (sh.apply (p, .handled m)) p m rfl htables).trans hm
      exact ((hands_handleMessage hm).cons trivial).push (by simp [Frame.Silent])

theorem isSome_promises_fulfilled {serial : ℕ} {result : Json} :
    ((sh.apply (p, .fulfilled serial result)).promises serial).isSome := by
  show (Function.update sh.promises serial (some result) serial).isSome
  rw [Function.update_self]
  rfl

/-- A promise that is set does not get empty. -/
theorem hands_fulfilled {serial : ℕ} {result : Json} :
    Hands sh [(p, .fulfilled serial result)] [] where
  kept _ _ hcl _ := .inl hcl
  old _ _ hcl := hcl
  promises k hk := by
    by_cases hserial : k = serial
    · subst hserial
      exact isSome_promises_fulfilled
    · show (Function.update sh.promises serial (some result) k).isSome
      rw [Function.update_of_ne hserial]
      exact hk
  plain _ hf := absurd hf List.not_mem_nil
  taken _ hf := absurd hf List.not_mem_nil

/-- What a turn does, as far as it matters to those who wait. -/
inductive WaitTurn (sh : Shared) (stack : List Frame) (r : Effect) : Prop
  | called {cl doc} (hserial : cl.serial = sh.issuers.length)
      (hissuers : sh.issuers.length < (sh.applyAll r.1).issuers.length)
      (hes : ∀ pe ∈ r.1, pe.2.KeepsRequests) (huser : InUserCode stack)
      (hr : r.2 = .execute cl doc :: stack)
  | executed {cl doc} {rest : List Frame} (hstack : stack = .execute cl doc :: rest)
      (hes : r.1 = [(cl.peer, .opened (sh.requests.sid + 1) cl)])
      (hr : r.2 = .send cl.peer (withId doc (sh.requests.sid + 1))
          (some (sh.requests.sid + 1, cl.serial)) ::
        (match cl.callback with
          | some _ => []
          | none => [.await cl.peer cl.item cl.serial,
              .destroySync cl.peer (sh.requests.sid + 1)]) ++ rest)
  | awaited {q item serial} {rest : List Frame} (hstack : stack = .await q item serial :: rest)
      (hes : ∀ pe ∈ r.1, pe.2.KeepsRequests) (hr : r.2 = rest)
  | destroyed {q i} {rest : List Frame} (hstack : stack = .destroySync q i :: rest)
      (hes : r.1 = [(q, .destroyed i)]) (hr : r.2 = rest)
  /-- Any other: the frame on top is replaced, or frames are put upon it. -/
  | hands {rest new : List Frame} (hhands : Hands sh r.1 new) (hr : r.2 = new ++ rest)
      (hrest : stack = rest ∧ InUserCode stack ∨ ∃ f, stack = f :: rest ∧ f.Plain ∧
        f.asks = none ∧ ∀ k, f.wakes = some k → ((sh.applyAll r.1).promises k).isSome)

/-- A call that issues a request. -/
theorem waitTurn_request (pre : List (ℕ × Event)) {doc : Json} {item : Option Item}
    {reply : Reply} (hpre : ∀ pe ∈ pre, pe.2.KeepsRequests) (huser : InUserCode stack)
    (hissuers : (sh.applyAll pre).issuers = sh.issuers) :
    WaitTurn sh stack (pre ++ (sh.request p doc item reply).1,
      (sh.request p doc item reply).2 ++ stack) := by
  have hes : ∀ pe ∈ pre ++ [(p, Event.issued)], pe.2.KeepsRequests := by
    intro pe hpe
    rcases List.mem_append.mp hpe with hpe | hpe
    · exact hpre pe hpe
    · obtain rfl := List.mem_singleton.mp hpe
      trivial
  have hmore : sh.issuers.length < (sh.applyAll (pre ++ [(p, .issued)])).issuers.length := by
    rw [Shared.applyAll, List.foldl_append]
    show _ < ((sh.applyAll pre).issuers ++ [p]).length
    rw [hissuers, List.length_append]
    exact Nat.lt_succ_self _
  cases reply with
  | ignore =>
      exact .hands (Hands.of_silent hes (by simp [Shared.request, Frame.Silent])) rfl
        (.inl ⟨rfl, huser⟩)
  | callback cb => exact .called rfl hmore hes huser rfl
  | await => exact .called rfl hmore hes huser rfl

theorem waitTurn_call (c : Call) (huser : InUserCode stack) :
    WaitTurn sh stack ((sh.call c).1, (sh.call c).2 ++ stack) := by
  have hhands : ∀ {new : List Frame}, (∀ f ∈ new, f.Silent) →
      WaitTurn sh stack ([], new ++ stack) := fun hnew =>
    .hands (Hands.of_silent (by simp) hnew) rfl (.inl ⟨rfl, huser⟩)
  cases c with
  | add | addFetch | removeFetch =>
      exact waitTurn_request [_] (List.forall_mem_singleton.mpr trivial) huser rfl
  | remove p kind path reply =>
      simp only [Shared.call]
      split
      · exact hhands (by simp)
      · exact waitTurn_request [_] (List.forall_mem_singleton.mpr trivial) huser rfl
  | request => exact waitTurn_request [] (by simp) huser rfl
  | _ => exact hhands (by simp [Shared.call, Frame.Silent])

theorem keepsRequests_sent {docs : List Json} :
    ∀ pe ∈ docs.map fun doc => (p, Event.sent doc), pe.2.KeepsRequests := by
  intro pe hpe
  obtain ⟨doc, -, rfl⟩ := List.mem_map.mp hpe
  trivial

theorem keepsRequests_answerAdd {cause serial : ℕ} {item : Option Item} {result : Json} :
    ∀ pe ∈ Shared.answerAdd p cause item serial result, pe.2.KeepsRequests := by
  intro pe hpe
  obtain ⟨i, -, rfl⟩ := List.mem_map.mp hpe
  trivial

/-- A frame that is neither the wait nor the destructor goes on. -/
theorem hands_run {c : Choice} (h : sh.run f c = some r) (hplain : f.Plain)
    (hasks : f.asks = none) :
    Hands sh r.1 r.2 ∧ ∀ k, f.wakes = some k → ((sh.applyAll r.1).promises k).isSome := by
  have hsilent : Hands sh r.1 r.2 → f.Silent →
      Hands sh r.1 r.2 ∧ ∀ k, f.wakes = some k → ((sh.applyAll r.1).promises k).isSome := by
    refine fun hhands hf => ⟨hhands, fun k hk => ?_⟩
    rw [hf.wakes_eq] at hk
    cases hk
  cases Shared.run_turn h with
  | execute cl doc => cases hasks
  | await _ => cases hasks
  | destroySync p id => exact hplain.elim
  | @fulfil cause cl result hcb =>
      refine ⟨hands_fulfilled, fun k hk => ?_⟩
      obtain ⟨-, rfl⟩ := wakes_invoke hk
      exact isSome_promises_fulfilled
  | @invoke cause cl result cb hcb =>
      refine ⟨Hands.of_silent keepsRequests_answerAdd (by simp [Frame.Silent]), fun k hk => ?_⟩
      obtain ⟨hnone, -⟩ := wakes_invoke hk
      rw [hcb] at hnone
      cases hnone
  | receive h => exact hsilent (hands_receive h) trivial
  | answer _ | restore _ _ =>
      exact hsilent (Hands.of_silent keepsRequests_sent (by simp)) trivial
  | stop p destroy =>
      refine hsilent (Hands.of_silent (by simp [Event.KeepsRequests]) ?_) trivial
      cases destroy <;> simp [Shared.teardown, Frame.Silent]
  | visit _ _ => exact hsilent (hands_callFetch.push (by simp [Frame.Silent])) trivial
  | clearRequests hperm => exact hsilent (hands_cancelled hperm) trivial
  | sent _ | install _ _ _ | connect _ | clear _ _ =>
      exact hsilent (Hands.of_silent (by simp [Event.KeepsRequests]) (by simp [Frame.Silent]))
        trivial
  | threw _ | dropped _ | refused _ | config _ | enter _ _ | done _ =>
      exact hsilent (Hands.of_silent (by simp) (by simp [Frame.Silent])) trivial

theorem waitTurn_run {c : Choice} (h : sh.run f c = some r) :
    WaitTurn sh (f :: rest) (r.1, r.2 ++ rest) := by
  by_cases hf : f.Plain ∧ f.asks = none
  · obtain ⟨hhands, hwakes⟩ := hands_run h hf.1 hf.2
    exact .hands hhands rfl (.inr ⟨f, rfl, hf.1, hf.2, hwakes⟩)
  · cases Shared.run_turn h with
    | execute cl doc => exact .executed rfl rfl rfl
    | await _ => exact .awaited rfl keepsRequests_answerAdd rfl
    | destroySync p id => exact .destroyed rfl rfl rfl
    | _ => exact absurd ⟨trivial, rfl⟩ hf

theorem waitTurn_effect (h : effect sh stack a = some r) : WaitTurn sh stack r := by
  cases a with
  | call c =>
      obtain ⟨huser, h⟩ := Option.ite_none_right_eq_some.mp h
      obtain rfl := Option.some.inj h
      exact waitTurn_call c huser
  | ret =>
      simp only [effect] at h
      split at h
      · obtain rfl := Option.some.inj h
        refine .hands (Hands.of_silent (by simp) (by simp)) (List.nil_append _).symm
          (.inr ⟨_, rfl, trivial, rfl, fun k hk => by cases hk⟩)
      · cases h
  | run c =>
      cases stack with
      | nil => cases h
      | cons f rest =>
          obtain ⟨r', hr', rfl⟩ := Option.map_eq_some_iff.mp h
          exact waitTurn_run hr'
  | telegram p ms =>
      obtain ⟨⟨hstack, -⟩, hr⟩ := Option.ite_none_right_eq_some.mp h
      obtain rfl := Option.some.inj hr
      subst hstack
      exact .hands (Hands.of_silent (by simp [Event.KeepsRequests]) (by simp [Frame.Silent]))
        (List.append_nil _).symm (.inl ⟨rfl, rfl⟩)
  | lost p =>
      obtain ⟨⟨hstack, -⟩, hr⟩ := Option.ite_none_right_eq_some.mp h
      obtain rfl := Option.some.inj hr
      subst hstack
      exact .hands (Hands.of_silent (by simp [Event.KeepsRequests]) (by simp [Frame.Silent]))
        (List.append_nil _).symm (.inl ⟨rfl, rfl⟩)
  | notifier key id =>
      simp only [effect] at h
      split at h
      · obtain ⟨p, -, rfl⟩ := Option.map_eq_some_iff.mp h
        exact .hands hands_complete (List.append_nil _).symm (.inl ⟨rfl, rfl⟩)
      · cases h

theorem WaitTurn.opened_of_execute {cl : Closure} {doc : Json}
    (h : WaitTurn sh (.execute cl doc :: rest) r) :
    r.1 = [(cl.peer, .opened (sh.requests.sid + 1) cl)] := by
  cases h with
  | called _ _ _ huser => cases huser
  | executed hstack hes =>
      cases hstack
      exact hes
  | awaited hstack => cases hstack
  | destroyed hstack => cases hstack
  | hands _ _ hrest =>
      rcases hrest with ⟨-, huser⟩ | ⟨f, hstack, -, hasks, -⟩
      · cases huser
      · cases hstack
        cases hasks

/-! ### The stack of a thread -/

/-- A stack, when `n` requests have been issued. -/
structure Orderly (n : ℕ) (stack : List Frame) : Prop where
  paired : Paired stack
  nested : stack.Pairwise Nested
  asked : ∀ f ∈ stack, ∀ k, f.asks = some k → k < n
  woken : ∀ f ∈ stack, ∀ k, f.wakes = some k → k < n

theorem Orderly.mono {n m : ℕ} (h : Orderly n stack) (hnm : n ≤ m) : Orderly m stack where
  paired := h.paired
  nested := h.nested
  asked f hf k hk := (h.asked f hf k hk).trans_le hnm
  woken f hf k hk := (h.woken f hf k hk).trans_le hnm

theorem Paired.tail (h : Paired (f :: rest)) : Paired rest := by
  by_cases hf : f.Plain
  · exact (paired_cons_plain hf).mp h
  · cases f with
    | await =>
        rcases rest with - | ⟨g, rest⟩
        · exact h.elim
        · cases g <;> first | exact h.elim | exact h
    | destroySync => exact h
    | _ => exact absurd trivial hf

theorem Orderly.tail {n : ℕ} (h : Orderly n (f :: rest)) : Orderly n rest where
  paired := h.paired.tail
  nested := (List.pairwise_cons.mp h.nested).2
  asked g hg := h.asked g (List.mem_cons_of_mem _ hg)
  woken g hg := h.woken g (List.mem_cons_of_mem _ hg)

/-- A frame that asks for nothing may lie on any stack that is not about to
issue a request. -/
theorem Orderly.cons {n : ℕ} (h : Orderly n rest) (hpaired : Paired (f :: rest))
    (hquiet : ∀ g ∈ rest, ∀ cl doc, g ≠ .execute cl doc)
    (hasks : ∀ k, f.asks = some k → k < n ∧ ∀ g ∈ rest, ∀ j, g.wakes = some j → j < k)
    (hwakes : ∀ k, f.wakes = some k → k < n) : Orderly n (f :: rest) where
  paired := hpaired
  nested := List.pairwise_cons.mpr
    ⟨fun g hg => ⟨hquiet g hg, fun k j hk hj => (hasks k hk).2 g hg j hj⟩, h.nested⟩
  asked := List.forall_mem_cons.mpr ⟨fun k hk => (hasks k hk).1, h.asked⟩
  woken := List.forall_mem_cons.mpr ⟨hwakes, h.woken⟩

/-- No frame of the stack is about to issue a request. -/
def Still (stack : List Frame) : Prop := ∀ g ∈ stack, ∀ cl doc, g ≠ .execute cl doc

theorem Orderly.still_tail {n : ℕ} (h : Orderly n (f :: rest)) : Still rest :=
  fun g hg => ((List.pairwise_cons.mp h.nested).1 g hg).1

theorem Orderly.still {n : ℕ} (h : Orderly n stack) (huser : InUserCode stack) : Still stack := by
  rcases stack with - | ⟨f, rest⟩
  · exact fun g hg => absurd hg List.not_mem_nil
  · cases f with
    | user =>
        refine List.forall_mem_cons.mpr ⟨fun cl doc hg => ?_, h.still_tail⟩
        cases hg
    | _ => cases huser

theorem Still.append (hnew : ∀ f ∈ new, f.asks = none) (hrest : Still rest) :
    Still (new ++ rest) := by
  intro g hg cl doc hexec
  rcases List.mem_append.mp hg with hg | hg
  · subst hexec
    cases hnew _ hg
  · exact hrest g hg cl doc hexec

theorem Orderly.push {n : ℕ} (h : Orderly n rest) (hrest : Still rest)
    (hnew : ∀ f ∈ new, f.Plain ∧ f.asks = none)
    (hwakes : ∀ f ∈ new, ∀ k, f.wakes = some k → k < n) : Orderly n (new ++ rest) := by
  induction new with
  | nil => exact h
  | cons f new ih =>
      obtain ⟨⟨hplain, hasks⟩, hnew⟩ := List.forall_mem_cons.mp hnew
      obtain ⟨hwake, hwakes⟩ := List.forall_mem_cons.mp hwakes
      have hrec := ih hnew hwakes
      refine hrec.cons ((paired_cons_plain hplain).mpr hrec.paired)
        (Still.append (fun g hg => (hnew g hg).2) hrest) (fun k hk => ?_) hwake
      rw [hasks] at hk
      cases hk

/-- The request on top of a stack is sent, and if it is synchronous, waited
for. -/
theorem Orderly.executed {n : ℕ} {cl : Closure} {doc doc' : Json} {i : UInt32}
    (h : Orderly n (.execute cl doc :: rest)) :
    Orderly n (.send cl.peer doc' (some (i, cl.serial)) ::
      (match cl.callback with
        | some _ => []
        | none => [.await cl.peer cl.item cl.serial, .destroySync cl.peer i]) ++ rest) := by
  have hasked : cl.serial < n := h.asked _ List.mem_cons_self _ rfl
  have hbelow : ∀ g ∈ rest, ∀ j, g.wakes = some j → j < cl.serial := fun g hg j hj =>
    ((List.pairwise_cons.mp h.nested).1 g hg).2 _ j rfl hj
  have hsilent : ∀ {f stack}, f.Silent → Still stack → Orderly n stack →
      Orderly n (f :: stack) := fun hf hstill hstack =>
    hstack.cons ((paired_cons_plain hf.plain).mpr hstack.paired) hstill
      (fun k hk => by rw [hf.asks_eq] at hk; cases hk)
      (fun k hk => by rw [hf.wakes_eq] at hk; cases hk)
  rcases cl.callback with - | cb
  · have hdestroy : Orderly n (.destroySync cl.peer i :: rest) :=
      h.tail.cons h.tail.paired h.still_tail (fun k hk => nomatch hk) (fun k hk => nomatch hk)
    have hstill : Still (.destroySync cl.peer i :: rest) :=
      List.forall_mem_cons.mpr ⟨(fun _ _ hg => nomatch hg), h.still_tail⟩
    have hawait : Orderly n (.await cl.peer cl.item cl.serial :: .destroySync cl.peer i :: rest) := by
      refine hdestroy.cons hdestroy.paired hstill (fun k hk => ?_) (fun k hk => nomatch hk)
      obtain rfl := Option.some.inj hk
      refine ⟨hasked, fun g hg j hj => ?_⟩
      rcases List.mem_cons.mp hg with rfl | hg
      · cases hj
      · exact hbelow g hg j hj
    exact hsilent trivial (List.forall_mem_cons.mpr ⟨(fun _ _ hg => nomatch hg), hstill⟩) hawait
  · exact hsilent trivial h.still_tail h.tail

/-- **One turn leaves the stack in order.** -/
theorem Orderly.turn (h : Orderly sh.issuers.length stack) (hturn : WaitTurn sh stack r)
    (hbounded : ∀ id cl, sh.requests.callback id = some cl → cl.serial < sh.issuers.length) :
    Orderly (sh.applyAll r.1).issuers.length r.2 := by
  have hmore : sh.issuers.length ≤ (sh.applyAll r.1).issuers.length := length_issuers_applyAll
  cases hturn with
  | called hserial hissuers hes huser hr =>
      rw [hr]
      refine (h.mono hmore).cons ((paired_cons_plain (by trivial)).mpr h.paired) (h.still huser)
        (fun k hk => ?_) (fun k hk => nomatch hk)
      obtain rfl := Option.some.inj hk
      rw [hserial]
      exact ⟨hissuers, h.woken⟩
  | executed hstack hes hr =>
      subst hstack
      rw [hr]
      exact (h.mono hmore).executed
  | awaited hstack hes hr =>
      subst hstack
      rw [hr]
      exact h.tail.mono hmore
  | destroyed hstack hes hr =>
      subst hstack
      rw [hr]
      exact h.tail.mono hmore
  | @hands rest new hhands hr hrest =>
      rw [hr]
      have hwakes : ∀ f ∈ new, ∀ k, f.wakes = some k → k < sh.issuers.length := by
        intro f hf k hk
        obtain ⟨id, cl, hcl, rfl⟩ := hhands.taken f hf k hk
        exact hbounded id cl hcl
      have hstill : Orderly sh.issuers.length rest ∧ Still rest := by
        rcases hrest with ⟨rfl, huser⟩ | ⟨f, rfl, -⟩
        · exact ⟨h, h.still huser⟩
        · exact ⟨h.tail, h.still_tail⟩
      exact (hstill.1.push hstill.2 hhands.plain hwakes).mono hmore

/-! ### All threads -/

/-- The result of request `k`, which has the id `id`, has come or is to come:
the promise is set, the callback is kept, or a thread is about to invoke it. -/
def Woken (sh : Shared) (handed : List ℕ) (id : UInt32) (k : ℕ) : Prop :=
  (sh.promises k).isSome ∨
    (∃ cl, sh.requests.callback id = some cl ∧ cl.callback = none ∧ cl.serial = k) ∨ k ∈ handed

/-- No thread that waits has been lost sight of. -/
structure WaitInv (s : Process) : Prop where
  orderly : ∀ stack ∈ s.callStacks, Orderly s.shared.issuers.length stack
  bounded : ∀ id cl, s.shared.requests.callback id = some cl →
    cl.serial < s.shared.issuers.length
  distinct : ((reservations s).map Prod.fst).Nodup
  woken : ∀ id k, (id, some k) ∈ reservations s → Woken s.shared (handed s) id k

/-- Every callback in the table belongs to a request that was issued. -/
theorem bounded_turn (horderly : Orderly sh.issuers.length stack) (hturn : WaitTurn sh stack r)
    (h : ∀ id cl, sh.requests.callback id = some cl → cl.serial < sh.issuers.length) :
    ∀ id cl, (sh.applyAll r.1).requests.callback id = some cl →
      cl.serial < (sh.applyAll r.1).issuers.length := by
  have hmore : sh.issuers.length ≤ (sh.applyAll r.1).issuers.length := length_issuers_applyAll
  intro id cl hcl
  refine lt_of_lt_of_le ?_ hmore
  cases hturn with
  | called _ _ hes | awaited _ hes =>
      rw [callback_applyAll_keeps hes] at hcl
      exact h id cl hcl
  | @executed cl' doc rest hstack hes =>
      rw [hes] at hcl
      by_cases hid : id = sh.requests.sid + 1
      · subst hid
        obtain rfl : cl' = cl := Option.some.inj (RequestTable.callback_enter_self.symm.trans hcl)
        subst hstack
        exact horderly.asked _ List.mem_cons_self _ rfl
      · exact h id cl ((RequestTable.callback_enter_of_ne hid).symm.trans hcl)
  | @destroyed q i rest hstack hes =>
      rw [hes] at hcl
      by_cases hid : id = i
      · subst hid
        have hnone := @RequestTable.callback_erase_self _ sh.requests id
        exact absurd (hnone.symm.trans hcl) (by simp)
      · exact h id cl ((RequestTable.callback_erase_of_ne hid).symm.trans hcl)
  | hands hhands => exact h id cl (hhands.old id cl hcl)

/-- The wait on top of a stack has the id of the destructor under it. -/
theorem reserved_await {q serial : ℕ} {item : Option Item}
    (h : Paired (.await q item serial :: rest)) : ∃ i l,
      reserved (.await q item serial :: rest) = (i, some serial) :: l ∧
        reserved rest = (i, none) :: l := by
  rcases rest with - | ⟨g, rest⟩
  · exact h.elim
  · cases g with
    | destroySync q' i => exact ⟨i, reserved rest, rfl, rfl⟩
    | _ => exact h.elim

/-- The ids in use after a turn: one is new, or one is no longer waited for, or
one is given up. -/
inductive ReservedTurn (sh : Shared) (stack : List Frame) (r : Effect) : Prop
  | same (h : reserved r.2 = reserved stack)
  | opened {cl doc} {rest : List Frame} (hstack : stack = .execute cl doc :: rest)
      (hcb : cl.callback = none)
      (hes : r.1 = [(cl.peer, .opened (sh.requests.sid + 1) cl)])
      (h : reserved r.2 = (sh.requests.sid + 1, some cl.serial) :: reserved stack)
  | awaited {i k l} (hstack : reserved stack = (i, some k) :: l)
      (h : reserved r.2 = (i, none) :: l)
  | destroyed {q i} {rest : List Frame} (hstack : stack = .destroySync q i :: rest)
      (h : reserved r.2 = reserved rest)

theorem reservedTurn_of_waitTurn (hpaired : Paired stack) (hturn : WaitTurn sh stack r) :
    ReservedTurn sh stack r := by
  cases hturn with
  | called _ _ _ _ hr => exact .same (by rw [hr]; rfl)
  | @executed cl doc rest hstack hes hr =>
      rcases hcb : cl.callback with - | cb
      · refine .opened hstack hcb hes ?_
        rw [hr, hcb, hstack]
        rfl
      · refine .same ?_
        rw [hr, hcb, hstack]
        rfl
  | @awaited q item serial rest hstack hes hr =>
      subst hstack
      obtain ⟨i, l, hbefore, hafter⟩ := reserved_await hpaired
      exact .awaited hbefore (by rw [hr]; exact hafter)
  | destroyed hstack hes hr => exact .destroyed hstack (by rw [hr])
  | @hands rest new hhands hr hrest =>
      refine .same ?_
      rw [hr, reserved_append_plain fun f hf => (hhands.plain f hf).1]
      rcases hrest with ⟨rfl, -⟩ | ⟨f, rfl, hf, -⟩
      · rfl
      · exact (reserved_cons_plain hf).symm

/-- **No result gets lost**, unless the id is given to another request, or
given up. -/
theorem Woken.turn {others : List ℕ} {k : ℕ} (h : Woken sh (handedOf stack ++ others) id k)
    (hturn : WaitTurn sh stack r)
    (hopened : ∀ cl doc rest, stack = .execute cl doc :: rest → id ≠ sh.requests.sid + 1)
    (hdestroyed : ∀ q rest, stack ≠ .destroySync q id :: rest) :
    Woken (sh.applyAll r.1) (handedOf r.2 ++ others) id k := by
  -- a turn that leaves promises, callbacks and handlers alone
  have hsame : (sh.applyAll r.1).promises = sh.promises →
      (sh.applyAll r.1).requests.callback id = sh.requests.callback id →
      handedOf r.2 = handedOf stack → Woken (sh.applyAll r.1) (handedOf r.2 ++ others) id k := by
    intro hpromises hcallback hhanded
    rw [Woken, hpromises, hcallback, hhanded]
    exact h
  cases hturn with
  | called _ _ hes _ hr =>
      exact hsame (promises_applyAll_keeps hes) (callback_applyAll_keeps hes) (by rw [hr]; rfl)
  | @executed cl doc rest hstack hes hr =>
      refine hsame (by rw [hes]; rfl) ?_ ?_
      · rw [hes]
        exact RequestTable.callback_enter_of_ne (hopened cl doc rest hstack)
      · rw [hr, hstack]
        rcases cl.callback with - | cb <;> rfl
  | awaited hstack hes hr =>
      subst hstack
      exact hsame (promises_applyAll_keeps hes) (callback_applyAll_keeps hes) (by rw [hr]; rfl)
  | @destroyed q i rest hstack hes hr =>
      subst hstack
      refine hsame (by rw [hes]; rfl) ?_ (by rw [hr]; rfl)
      rw [hes]
      refine RequestTable.callback_erase_of_ne fun hid => ?_
      exact hdestroyed q rest (by rw [hid])
  | @hands rest new hhands hr hrest =>
      rcases h with hpromise | ⟨cl, hcl, hsync, rfl⟩ | hhanded
      · exact .inl (hhands.promises k hpromise)
      · rcases hhands.kept id cl hcl hsync with hkept | hnew
        · exact .inr (.inl ⟨cl, hkept, hsync, rfl⟩)
        · rw [hr, handedOf_append]
          exact .inr (.inr (List.mem_append_left _ (List.mem_append_left _ hnew)))
      · rw [hr, handedOf_append]
        rcases List.mem_append.mp hhanded with hstack | hothers
        · rcases hrest with ⟨rfl, -⟩ | ⟨f, rfl, -, -, hwakes⟩
          · exact .inr (.inr (List.mem_append_left _ (List.mem_append_right _ hstack)))
          · -- the frame on top has set its promise
            obtain ⟨g, hg, hk⟩ := List.mem_filterMap.mp hstack
            rcases List.mem_cons.mp hg with rfl | hg
            · exact .inl (hwakes k hk)
            · refine .inr (.inr (List.mem_append_left _ (List.mem_append_right _ ?_)))
              exact List.mem_filterMap.mpr ⟨g, hg, hk⟩
        · exact .inr (.inr (List.mem_append_right _ hothers))

/-- The ids stay apart. -/
theorem distinct_turn {others : List (UInt32 × Option ℕ)} (hturn : ReservedTurn sh stack r)
    (hG : ∀ id cl p, r.1 = [(p, .opened id cl)] → id ∉ (reserved stack ++ others).map Prod.fst)
    (h : ((reserved stack ++ others).map Prod.fst).Nodup) :
    ((reserved r.2 ++ others).map Prod.fst).Nodup := by
  cases hturn with
  | same hsame =>
      rw [hsame]
      exact h
  | opened hstack hcb hes hopened =>
      rw [hopened]
      exact List.nodup_cons.mpr ⟨hG _ _ _ hes, h⟩
  | awaited hstack hawaited =>
      rw [hstack] at h
      rw [hawaited]
      exact h
  | destroyed hstack hdestroyed =>
      subst hstack
      rw [hdestroyed]
      exact (List.nodup_cons.mp h).2

/-- A wait there is after a turn was there before, or is for the request just
sent. -/
theorem mem_reserved_turn {others : List (UInt32 × Option ℕ)} {k : ℕ}
    (hturn : ReservedTurn sh stack r) (h : (id, some k) ∈ reserved r.2 ++ others) :
    (id, some k) ∈ reserved stack ++ others ∨
      ∃ cl p, cl.callback = none ∧ cl.serial = k ∧ id = sh.requests.sid + 1 ∧
        r.1 = [(p, .opened id cl)] := by
  cases hturn with
  | same hsame =>
      rw [hsame] at h
      exact .inl h
  | @opened cl doc rest hstack hcb hes hopened =>
      rw [hopened] at h
      rcases List.mem_cons.mp h with heq | hold
      · obtain ⟨rfl, hk⟩ := Prod.mk.inj heq
        exact .inr ⟨cl, cl.peer, hcb, (Option.some.inj hk).symm, rfl, hes⟩
      · exact .inl hold
  | awaited hstack hawaited =>
      rw [hawaited] at h
      rw [hstack]
      rcases List.mem_cons.mp h with heq | hold
      · cases heq
      · exact .inl (List.mem_cons_of_mem _ hold)
  | destroyed hstack hdestroyed =>
      subst hstack
      rw [hdestroyed] at h
      exact .inl (List.mem_cons_of_mem _ h)

theorem WaitInv.step {s t : Process} {tid : ℕ} (h : WaitInv s)
    (hG : Meets Unshared s (tid, a)) (hstep : processMachine.step s (tid, a) = some t) :
    WaitInv t := by
  obtain ⟨stack, r, hstack, hr, rfl⟩ := processMachine_step_eq_some.mp hstep
  have hmem : stack ∈ s.callStacks := List.mem_of_getElem? hstack
  have horderly := h.orderly stack hmem
  have hturn := waitTurn_effect hr
  have hreserved := reservedTurn_of_waitTurn horderly.paired hturn
  obtain ⟨others, hbefore, hafter⟩ := flatMap_set_perm reserved hstack
  obtain ⟨others', hbefore', hafter'⟩ := flatMap_set_perm handedOf hstack
  have hids : ((reserved stack ++ others).map Prod.fst).Nodup :=
    (hbefore.map Prod.fst).nodup_iff.mp h.distinct
  have hfresh : ∀ id cl p, r.1 = [(p, .opened id cl)] →
      id ∉ (reserved stack ++ others).map Prod.fst := by
    intro id cl p hes
    have hunshared := hG stack hstack r hr
    rw [hes] at hunshared
    exact fun hid => hunshared.1 ((hbefore.map Prod.fst).mem_iff.mpr hid)
  refine ⟨fun stack' hstack' => ?_, bounded_turn horderly hturn h.bounded, ?_, ?_⟩
  · rcases List.mem_or_eq_of_mem_set hstack' with hold | rfl
    · exact (h.orderly stack' hold).mono length_issuers_applyAll
    · exact horderly.turn hturn h.bounded
  · exact ((hafter r.2).map Prod.fst).nodup_iff.mpr (distinct_turn hreserved hfresh hids)
  · intro id k hk
    have hhanded : ∀ j, j ∈ handed ⟨s.shared.applyAll r.1, s.callStacks.set tid r.2⟩ ↔
        j ∈ handedOf r.2 ++ others' := fun j => (hafter' r.2).mem_iff
    rw [Woken, hhanded]
    rcases mem_reserved_turn hreserved ((hafter r.2).mem_iff.mp hk) with
      hold | ⟨cl, p, hsync, rfl, rfl, hes⟩
    · have hwoken := h.woken id k (hbefore.mem_iff.mpr hold)
      rw [Woken, show k ∈ handed s ↔ k ∈ handedOf stack ++ others' from hbefore'.mem_iff] at hwoken
      refine Woken.turn hwoken hturn ?_ ?_
      · rintro cl doc rest rfl rfl
        exact hfresh _ cl cl.peer hturn.opened_of_execute (List.mem_map_of_mem hold)
      · rintro q rest rfl
        refine (List.nodup_cons.mp hids).1 (List.mem_map.mpr ⟨(id, some k), ?_, rfl⟩)
        rcases List.mem_cons.mp hold with heq | hrest
        · cases heq
        · exact hrest
    · refine .inr (.inl ⟨cl, ?_, hsync, rfl⟩)
      rw [hes]
      exact RequestTable.callback_enter_self

/-- A thread waits for the request `k`, and its result has not come. -/
def WaitsFor (s : Process) (k : ℕ) : Prop :=
  ∃ stack ∈ s.callStacks, ∃ p item rest, stack = .await p item k :: rest ∧
    s.shared.promises k = none

/-- A frame that leads to `AsyncRequest::clear`. -/
def Frame.Stops : Frame → Prop
  | .stop .. | .clearRequests _ => True
  | _ => False

/-- The thread `tid` is in `stop()`, or through with it, and has handed out all
callbacks. -/
structure Stopping (s : Process) (tid : ℕ) : Prop where
  still : ∀ stack ∈ s.callStacks, Still stack
  stopper : ∃ stack, s.callStacks[tid]? = some stack ∧ (∀ f ∈ stack, f.asks = none) ∧
    ((∃ f ∈ stack, f.Stops) ∨ ∀ id, s.shared.requests.callback id = none)

/-- A frame that is not about to issue a request: no callback comes to the
table, and what is pushed asks for nothing. -/
theorem still_run {c : Choice} (hf : ∀ cl doc, f ≠ .execute cl doc) (h : sh.run f c = some r) :
    (∀ id, sh.requests.callback id = none → (sh.applyAll r.1).requests.callback id = none) ∧
      ∀ g ∈ r.2, g.asks = none := by
  by_cases hplain : f.Plain ∧ f.asks = none
  · have hhands := (hands_run h hplain.1 hplain.2).1
    refine ⟨fun id hnone => ?_, fun g hg => (hhands.plain g hg).2⟩
    by_contra hsome
    obtain ⟨cl, hcl⟩ := Option.ne_none_iff_exists'.mp hsome
    have hold := hhands.old id cl hcl
    rw [hnone] at hold
    cases hold
  · cases Shared.run_turn h with
    | execute cl doc => exact absurd rfl (hf cl doc)
    | await _ =>
        refine ⟨fun id hnone => ?_, by simp⟩
        rw [callback_applyAll_keeps keepsRequests_answerAdd]
        exact hnone
    | destroySync p i =>
        refine ⟨fun id hnone => ?_, by simp⟩
        by_cases hid : id = i
        · subst hid
          exact RequestTable.callback_erase_self
        · exact (RequestTable.callback_erase_of_ne hid).trans hnone
    | _ => exact absurd ⟨trivial, rfl⟩ hplain

theorem still_turn (hstill : Still stack) (ha : a = .ret ∨ ∃ c, a = .run c)
    (h : effect sh stack a = some r) :
    (∀ id, sh.requests.callback id = none → (sh.applyAll r.1).requests.callback id = none) ∧
      ∃ f rest new, stack = f :: rest ∧ r.2 = new ++ rest ∧ ∀ f ∈ new, f.asks = none := by
  rcases ha with rfl | ⟨c, rfl⟩
  · simp only [effect] at h
    split at h
    · obtain rfl := Option.some.inj h
      exact ⟨fun _ hnone => hnone, _, _, [], rfl, rfl, by simp⟩
    · cases h
  · cases stack with
    | nil => cases h
    | cons f rest =>
        obtain ⟨r', hr', rfl⟩ := Option.map_eq_some_iff.mp h
        obtain ⟨hnone, hnew⟩ := still_run (hstill f List.mem_cons_self) hr'
        exact ⟨hnone, f, rest, r'.2, rfl, rfl, hnew⟩

/-- The thread in `stop()` comes to `clear`, and `clear` empties the table. -/
theorem stops_turn (ha : a = .ret ∨ ∃ c, a = .run c) (h : effect sh stack a = some r)
    (hstops : ∃ f ∈ stack, f.Stops) :
    (∃ f ∈ r.2, f.Stops) ∨ ∀ id, (sh.applyAll r.1).requests.callback id = none := by
  obtain ⟨g, hg, hstops⟩ := hstops
  rcases ha with rfl | ⟨c, rfl⟩
  · simp only [effect] at h
    split at h
    · obtain rfl := Option.some.inj h
      rcases List.mem_cons.mp hg with rfl | hg
      · exact hstops.elim
      · exact .inl ⟨g, hg, hstops⟩
    · cases h
  · cases stack with
    | nil => cases h
    | cons f rest =>
        obtain ⟨r', hr', rfl⟩ := Option.map_eq_some_iff.mp h
        rcases List.mem_cons.mp hg with rfl | hg
        · cases Shared.run_turn hr' with
          | stop p destroy =>
              refine .inl ⟨.clearRequests p, List.mem_append_left _ ?_, trivial⟩
              simp [Shared.teardown]
          | clearRequests _ => exact .inr fun id => RequestTable.callback_clear
          | _ => exact hstops.elim
        · exact .inl ⟨g, List.mem_append_right _ hg, hstops⟩

theorem Stopping.step {s t : Process} {tid tid' : ℕ} (h : Stopping s tid)
    (ha : Unprompted s (tid', a)) (hstep : processMachine.step s (tid', a) = some t) :
    Stopping t tid := by
  obtain ⟨stack, r, hstack, hr, rfl⟩ := processMachine_step_eq_some.mp hstep
  have hmem : stack ∈ s.callStacks := List.mem_of_getElem? hstack
  have ha := unprompted_iff.mp ha
  obtain ⟨hnone, f, rest, new, rfl, hr2, hnew⟩ := still_turn (h.still stack hmem) ha hr
  have hrest : Still rest := fun g hg => h.still _ hmem g (List.mem_cons_of_mem _ hg)
  constructor
  · intro stack' hstack'
    rcases List.mem_or_eq_of_mem_set hstack' with hold | rfl
    · exact h.still stack' hold
    · rw [hr2]
      exact Still.append hnew hrest
  · obtain ⟨stack', hstack', hasks, hstops⟩ := h.stopper
    by_cases htid : tid' = tid
    · subst htid
      obtain rfl : f :: rest = stack' := Option.some.inj (hstack.symm.trans hstack')
      have hlt := (List.getElem?_eq_some_iff.mp hstack).1
      refine ⟨r.2, List.getElem?_set_self hlt, fun g hg => ?_, ?_⟩
      · rw [hr2] at hg
        rcases List.mem_append.mp hg with hg | hg
        · exact hnew g hg
        · exact hasks g (List.mem_cons_of_mem _ hg)
      · rcases hstops with hstops | hcleared
        · exact stops_turn ha hr hstops
        · exact .inr fun id => hnone id (hcleared id)
    · refine ⟨stack', ?_, hasks, ?_⟩
      · show (s.callStacks.set tid' r.2)[tid]? = _
        rw [List.getElem?_set_ne htid]
        exact hstack'
      · rcases hstops with hstops | hcleared
        · exact .inl hstops
        · exact .inr fun id => hnone id (hcleared id)

end

end JetPeer
