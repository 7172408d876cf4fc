/-
JetPeer/SelfCalls.lean

A synchronous call from inside a callback.

`receive` holds `m_receiveMutex` while it calls the callbacks of a telegram, and
it is `receive` that takes the answers out of the socket.  So a callback that
asks for something and waits for the answer waits for the function that has
called it.  What is needed for this is that nobody else answers: no `stop()`, no
report of a failed send, no telegram of another peer with the same id
(`AnsweredBy`).  Then the thread stays where it is in every run, and its peer
receives nothing more (`self_call_stuck`).

A turn of another thread is harmless for two reasons.  A promise is set by a
thread that has taken the callback out of the table (`fulfils_effect`), and it
takes it out with an answer or a cancellation (`taken_effect`).
-/
import JetPeer.Waiting

namespace JetPeer

open Runs

/-! ### Who answers a request -/

/-- The events that take the callback of the request `k` out of the table. -/
def LeavesOpen (k : ℕ) (sh : Shared) : ℕ × Event → Prop
  | (_, .completed id) => ∀ cl ∈ sh.requests.callback id, cl.serial ≠ k
  | (_, .cancelled) => ∀ id ∈ sh.requests.openRequestCbs.keys,
      ∀ cl ∈ sh.requests.callback id, cl.serial ≠ k
  | _ => True

instance (k : ℕ) (sh : Shared) : ∀ pe, Decidable (LeavesOpen k sh pe)
  | (_, .completed id) =>
      inferInstanceAs (Decidable (∀ cl ∈ sh.requests.callback id, cl.serial ≠ k))
  | (_, .cancelled) => List.decidableBAll
      (fun id => ∀ cl ∈ sh.requests.callback id, cl.serial ≠ k) sh.requests.openRequestCbs.keys
  | (_, .registered ..) | (_, .removed _) | (_, .answered ..) | (_, .cleared _) | (_, .issued)
  | (_, .opened ..) | (_, .installed ..) | (_, .destroyed _) | (_, .fulfilled ..)
  | (_, .connected) | (_, .disconnected) | (_, .arrived _) | (_, .handled _) | (_, .left)
  | (_, .called ..) | (_, .sent _) => .isTrue trivial

/-- The thread is in `receive` of `p`, and about to go on. -/
def Receiving (p : ℕ) (s : Process) (tid : ℕ) : Prop :=
  ∃ stack ∈ s.callStacks[tid]?, .receive p ∈ stack.head?

/-- The request `k` is answered by what `p` receives, and in no other way. -/
def AnsweredBy (p k : ℕ) (s : Process) (a : ℕ × Action) : Prop :=
  Receiving p s a.1 ∨ Meets (fun _ => LeavesOpen k) s a

section

variable {sh : Shared} {stack rest : List Frame} {r : Effect} {a : Action} {f : Frame}
  {k p : ℕ} {pe : ℕ × Event} {es : List (ℕ × Event)}

/-! ### How a promise comes to be set -/

def Event.Fulfils (k : ℕ) : Event → Prop
  | .fulfilled serial _ => serial = k
  | _ => False

theorem promises_applyAll_of_not (h : ∀ pe ∈ es, ¬ pe.2.Fulfils k) :
    (sh.applyAll es).promises k = sh.promises k := by
  induction es generalizing sh with
  | nil => rfl
  | cons pe es ih =>
      obtain ⟨hpe, hes⟩ := List.forall_mem_cons.mp h
      obtain ⟨q, e⟩ := pe
      refine (ih hes).trans ?_
      cases e with
      | fulfilled serial result => exact Function.update_of_ne (fun heq => hpe heq.symm) ..
      | _ => rfl

theorem not_fulfils_call (c : Call) : ∀ pe ∈ (sh.call c).1, ¬ pe.2.Fulfils k := by
  cases c with
  | remove p kind path reply =>
      simp only [Shared.call]
      split <;> simp [Shared.request, Event.Fulfils]
  | _ => simp [Shared.call, Shared.request, Event.Fulfils]

theorem not_fulfils_complete {id : UInt32} {result : Json} :
    ∀ pe ∈ (sh.complete p id result).1, ¬ pe.2.Fulfils k := by
  unfold Shared.complete
  split <;> simp [Event.Fulfils]

theorem not_fulfils_callFetch {fetchId : FetchId} {fetcher : Fetcher} {params : Json}
    {status : Int} :
    ∀ pe ∈ (Shared.callFetch p fetchId fetcher params status).1, ¬ pe.2.Fulfils k := by
  unfold Shared.callFetch
  split <;> simp [Event.Fulfils]

theorem not_fulfils_receive (h : sh.receive p = some r) : ∀ pe ∈ r.1, ¬ pe.2.Fulfils k := by
  unfold Shared.receive at h
  split at h
  · cases h
  · obtain rfl := Option.some.inj h
    simp [Event.Fulfils]
  · split at h
    · obtain rfl := Option.some.inj h
      simp [Event.Fulfils]
    next es frames hm =>
      obtain rfl := Option.some.inj h
      refine List.forall_mem_cons.mpr ⟨id, ?_⟩
      unfold Shared.handleMessage at hm
      split at hm
      · cases hm
      · obtain rfl := congrArg Prod.fst (Option.some.inj hm)
        exact not_fulfils_complete
      · obtain rfl := congrArg Prod.fst (Option.some.inj hm)
        exact not_fulfils_callFetch
      all_goals
        obtain rfl := congrArg Prod.fst (Option.some.inj hm)
        simp [Shared.serve]

/-- Only a thread that has the callback sets the promise. -/
theorem fulfils_effect (h : effect sh stack a = some r) (hpe : pe ∈ r.1)
    (hfulfils : pe.2.Fulfils k) : k ∈ handedOf stack := by
  cases a with
  | call c =>
      obtain ⟨-, h⟩ := Option.ite_none_right_eq_some.mp h
      obtain rfl := Option.some.inj h
      exact absurd hfulfils (not_fulfils_call c pe hpe)
  | ret =>
      simp only [effect] at h
      split at h
      · obtain rfl := Option.some.inj h
        exact absurd hpe List.not_mem_nil
      · cases h
  | run c =>
      cases stack with
      | nil => cases h
      | cons f rest =>
          obtain ⟨r', hr', rfl⟩ := Option.map_eq_some_iff.mp h
          cases Shared.run_turn hr' with
          | fulfil hcb =>
              obtain rfl := List.mem_singleton.mp hpe
              obtain rfl : _ = k := hfulfils
              exact mem_handedOf hcb List.mem_cons_self
          | receive hreceive => exact absurd hfulfils (not_fulfils_receive hreceive pe hpe)
          | visit => exact absurd hfulfils (not_fulfils_callFetch pe hpe)
          | answer | restore =>
              obtain ⟨doc, -, rfl⟩ := List.mem_map.mp hpe
              exact hfulfils.elim
          | await | invoke =>
              obtain ⟨i, -, rfl⟩ := List.mem_map.mp hpe
              exact hfulfils.elim
          | _ =>
              first
                | exact absurd hpe List.not_mem_nil
                | (obtain rfl := List.mem_singleton.mp hpe
                   exact hfulfils.elim)
  | telegram p ms =>
      obtain ⟨-, h⟩ := Option.ite_none_right_eq_some.mp h
      obtain rfl := Option.some.inj h
      obtain rfl := List.mem_singleton.mp hpe
      exact hfulfils.elim
  | lost p =>
      obtain ⟨-, h⟩ := Option.ite_none_right_eq_some.mp h
      obtain rfl := Option.some.inj h
      obtain rfl := List.mem_singleton.mp hpe
      exact hfulfils.elim
  | notifier key id =>
      simp only [effect] at h
      split at h
      · obtain ⟨q, -, rfl⟩ := Option.map_eq_some_iff.mp h
        exact absurd hfulfils (not_fulfils_complete pe hpe)
      · cases h

/-- A callback is taken out of the table with an answer or a cancellation. -/
theorem taken_effect (h : effect sh stack a = some r) (hopen : Along (LeavesOpen k) sh r.1)
    (hnew : k ∈ handedOf r.2) : k ∈ handedOf stack := by
  obtain ⟨f, hf, hwakes⟩ := List.mem_filterMap.mp hnew
  rcases (sound_effect h).pushed f hf with hold | hpushed
  · exact List.mem_filterMap.mpr ⟨f, hold, hwakes⟩
  · cases f with
    | invoke cause cl result =>
        obtain ⟨-, rfl⟩ := wakes_invoke hwakes
        obtain ⟨id, sh', hcl, hhappens | ⟨hhappens, -⟩⟩ := hpushed
        · exact absurd rfl (hopen.of_happens hhappens cl hcl)
        · exact absurd rfl (hopen.of_happens hhappens id (callback_mem_keys hcl) cl hcl)
    | _ => cases hwakes

/-! ### The thread that waits -/

/-- A thread that waits does nothing. -/
theorem effect_await {q : ℕ} {item : Option Item} (hunset : sh.promises k = none) :
    effect sh (.await q item k :: rest) a = none := by
  cases a with
  | call c => rfl
  | ret => rfl
  | run c => cases c <;> simp [effect, Shared.run, hunset]
  | telegram p ms => simp [effect]
  | lost p => simp [effect]
  | notifier key id => rfl

end

/-- The thread `tid` stays where it is, and nobody has the answer to its request
`k`. -/
structure Stays (k tid : ℕ) (stack : List Frame) (s : Process) : Prop where
  waits : s.callStacks[tid]? = some stack
  /-- Who is in `receive` has a telegram, and is the only one. -/
  receivers : ∀ p, (receivers s).count p = telegrams s.shared p
  unset : s.shared.promises k = none
  unanswered : k ∉ handed s

section

variable {p q k tid : ℕ} {item : Option Item} {stack rest : List Frame} {s t : Process}

theorem Stays.telegram (h : Stays k tid stack s) (hin : .receive p ∈ stack) :
    (s.shared.peers p).telegram.isSome := by
  have hmem : p ∈ JetPeer.receivers s := List.mem_flatMap.mpr
    ⟨stack, List.mem_of_getElem? h.waits, List.mem_filterMap.mpr ⟨_, hin, rfl⟩⟩
  have hcount := List.count_pos_iff.mpr hmem
  rw [h.receivers, telegrams] at hcount
  by_contra hnone
  rw [if_neg hnone] at hcount
  exact absurd hcount (lt_irrefl _)

/-- `receive` of a peer runs on one thread at most. -/
theorem Stays.not_receiving {tid' : ℕ} (h : Stays k tid stack s) (hin : .receive p ∈ stack)
    (hne : tid' ≠ tid) : ¬ Receiving p s tid' := by
  rintro ⟨stack', hstack', hhead⟩
  have hmine : p ∈ receivesOf stack := List.mem_filterMap.mpr ⟨_, hin, rfl⟩
  have hother : p ∈ receivesOf stack' :=
    List.mem_filterMap.mpr ⟨_, List.mem_of_mem_head? hhead, rfl⟩
  obtain ⟨others, hbefore, hafter⟩ := flatMap_set_perm receivesOf h.waits
  have hothers : p ∈ others := by
    refine (hafter []).mem_iff.mp (List.mem_flatMap.mpr ⟨stack', ?_, hother⟩)
    refine List.mem_of_getElem? (i := tid') ?_
    rw [List.getElem?_set_ne (Ne.symm hne)]
    exact hstack'
  have hcount := h.receivers p
  rw [JetPeer.receivers, hbefore.count_eq, List.count_append] at hcount
  have hone := List.count_pos_iff.mpr hmine
  have htwo := List.count_pos_iff.mpr hothers
  have hle : telegrams s.shared p ≤ 1 := by
    unfold telegrams
    split <;> omega
  omega

/-- **A turn of another thread** does not set the promise, and does not take
the callback out of the table. -/
theorem Stays.step {a : ℕ × Action} (h : Stays k tid (.await q item k :: rest) s)
    (hin : .receive p ∈ rest) (hanswered : AnsweredBy p k s a)
    (hstep : processMachine.step s a = some t) : Stays k tid (.await q item k :: rest) t := by
  obtain ⟨tid', a⟩ := a
  obtain ⟨stack', r, hstack', hr, rfl⟩ := processMachine_step_eq_some.mp hstep
  have hne : tid' ≠ tid := by
    rintro rfl
    obtain rfl : _ = stack' := Option.some.inj (h.waits.symm.trans hstack')
    rw [effect_await h.unset] at hr
    cases hr
  have hopen : Along (LeavesOpen k) s.shared r.1 := by
    rcases hanswered with hreceiving | hmeets
    · exact absurd hreceiving (h.not_receiving (List.mem_cons_of_mem _ hin) hne)
    · exact hmeets stack' hstack' r hr
  obtain ⟨others, hbefore, hafter⟩ := flatMap_set_perm handedOf hstack'
  have hhanded : k ∉ handedOf stack' ++ others := fun hk =>
    h.unanswered (hbefore.mem_iff.mpr hk)
  have hhandedOf : k ∉ handedOf stack' := fun hk => hhanded (List.mem_append_left _ hk)
  refine ⟨?_, count_receivers_step h.receivers hstep, ?_, fun hk => ?_⟩
  · show (s.callStacks.set tid' r.2)[tid]? = _
    rw [List.getElem?_set_ne hne]
    exact h.waits
  · show (s.shared.applyAll r.1).promises k = none
    rw [promises_applyAll_of_not fun pe hpe hf => hhandedOf (fulfils_effect hr hpe hf)]
    exact h.unset
  · rcases List.mem_append.mp ((hafter r.2).mem_iff.mp hk) with hnew | hold
    · exact hhandedOf (taken_effect hr hopen hnew)
    · exact hhanded (List.mem_append_right _ hold)

/-- **A synchronous call in a callback does not return**, in every run in which
its request is answered by what the peer receives that has called the callback,
and in no other way; and this peer receives nothing more. -/
theorem self_call_stuck {n : ℕ} {as bs : List (ℕ × Action)}
    (h : processMachine.Run Machine.Always (Threads.idle {} n) as s)
    (hwaits : s.callStacks[tid]? = some (.await q item k :: rest)) (hin : .receive p ∈ rest)
    (hunset : s.shared.promises k = none) (hunanswered : k ∉ handed s)
    (hrun : processMachine.Run (AnsweredBy p k) s bs t) :
    t.callStacks[tid]? = some (.await q item k :: rest) ∧
      (t.shared.peers p).telegram.isSome := by
  have hstays : Stays k tid (.await q item k :: rest) s :=
    ⟨hwaits, receivers_run h, hunset, hunanswered⟩
  have hstays' := hrun.invariant (I := Stays k tid (.await q item k :: rest)) hstays
    fun _ _ _ hs hanswered hstep => hs.step hin hanswered hstep
  exact ⟨hstays'.waits, hstays'.telegram (List.mem_cons_of_mem _ hin)⟩

end

/-- A request to a state arrives, and its callback asks for something. -/
def askInCallback : List (ℕ × Action) :=
  [(0, .call (.resume 0)), (0, .run .go), (0, .run .go), (0, .run .go), (0, .run (.order [])),
    (0, .call (.add 0 .state "a" .null .null (some 0) .ignore)), (0, .run .go),
    (0, .telegram 0 [.object [("id", .int 5), ("method", .string "a"),
      ("params", .object [("value", .int 3)])]]), (0, .run .go),
    (0, .call (.request 0 "info" .null .await)), (0, .run .go), (0, .run .go)]

/-- Another thread goes on. -/
def sendMeanwhile : List (ℕ × Action) :=
  [(1, .call (.sendMessage 0 (.object []))), (1, .run .go)]

theorem self_call_stuck_ask :
    ∃ s t, processMachine.Run Machine.Always (Threads.idle {} 2) askInCallback s ∧
      processMachine.Run (AnsweredBy 0 1) s sendMeanwhile t ∧
      t.callStacks[0]? =
        some [.await 0 none 1, .destroySync 0 1, .user, .answer 0, .receive 0] ∧
      (t.shared.peers 0).telegram.isSome := by
  have h : ∃ s t, processMachine.eval (Threads.idle {} 2) askInCallback = some s ∧
      processMachine.evalIn (Meets fun _ => LeavesOpen 1) s sendMeanwhile = some t ∧
      s.callStacks[0]? =
        some [.await 0 none 1, .destroySync 0 1, .user, .answer 0, .receive 0] ∧
      s.shared.promises 1 = none ∧ handed s = [] :=
    ⟨_, _, rfl, rfl, rfl, rfl, rfl⟩
  obtain ⟨s, t, hs, ht, hwaits, hunset, hhanded⟩ := h
  have hs := Machine.Run.of_eval hs
  have ht : processMachine.Run (AnsweredBy 0 1) s sendMeanwhile t :=
    (Machine.Run.of_evalIn ht).mono fun _ _ hmeets => .inr hmeets
  refine ⟨s, t, hs, ht, self_call_stuck (p := 0) hs hwaits ?_ hunset ?_ ht⟩
  · simp
  · rw [hhanded]
    exact List.not_mem_nil

end JetPeer
