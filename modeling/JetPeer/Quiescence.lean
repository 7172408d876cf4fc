/-
JetPeer/Quiescence.lean

What a process comes to when nothing new happens to it.

User code returns from every callback and calls nothing, and nothing arrives
(`Unprompted`).  All that goes on then is the rest of the functions the library
is in: sends end, the loop of `stop()` visits its fetches, telegrams are
worked off, cancelled requests are handed to their callbacks.

Each frame has so and so many turns to go (`Frame.work`); a result callback
that is still in the table counts as well, since `clear` is going to hand it
out.  Every turn lowers the sum (`unprompted_lowers`), whichever thread takes
it, so a process settles.  No frame but one can be stuck: there is always a
way the code may go on (`run_enabled`), unless the thread waits in
`executeSync` for a result that has not come (`Blocked`).

For a thread in `receive` this takes that it has a telegram to work on.  It is
the only one in `receive` of its peer, and the telegram is there as long as it
is (`receivers_run`).
-/
import JetPeer.Process
import JetPeer.Settling

namespace JetPeer

open Runs

/-! ### The table of open requests, by what it still has to hand out -/

namespace RequestTable

variable {κ : Type*} {t : RequestTable κ} {id : UInt32} {cb : κ}

/-- The result callbacks in the table. -/
def size (t : RequestTable κ) : ℕ := t.cancelled.length

@[simp] theorem size_clear : t.clear.size = 0 := rfl

end RequestTable

/-! ### What is left to do -/

/-- User code returns and calls nothing, and nothing arrives. -/
def Unprompted (_ : Process) : ℕ × Action → Prop
  | (_, .ret) => True
  | (_, .run _) => True
  | _ => False

instance (s : Process) : ∀ a, Decidable (Unprompted s a)
  | (_, .ret) | (_, .run _) => .isTrue trivial
  | (_, .call _) | (_, .telegram ..) | (_, .lost _) | (_, .notifier ..) => .isFalse id

/-- The fetches of `p` a loop of `stop()` has not yet visited. -/
def unvisited (sh : Shared) (p : ℕ) (visited : List FetchId) : List FetchId :=
  (sh.peers p).tables.fetchers.keys.filter (· ∉ visited)

/-- The messages of `p` still to be handled. -/
def unhandled (sh : Shared) (p : ℕ) : List Json := ((sh.peers p).telegram).getD []

/-- How many turns a frame and those it pushes may take. -/
def Frame.work (sh : Shared) : Frame → ℕ
  | .user | .install .. | .await .. | .destroySync .. | .answer _ | .restore _ | .clear ..
  | .clearRequests _ => 1
  | .send _ _ none => 1
  | .send _ _ (some _) => 2
  | .execute .. => 7
  | .invoke .. => 2
  | .receive p => 1 + 3 * (unhandled sh p).length
  | .connect _ => 4
  | .config _ => 2
  | .stop p _ => 7 + 2 * (unvisited sh p []).length
  | .notify p none visited => 2 + 2 * (unvisited sh p visited).length
  | .notify p (some _) visited => 1 + 2 * (unvisited sh p visited).length

/-- Each callback in the table may be handed out. -/
def callbacksLeft (sh : Shared) : ℕ := 2 * sh.requests.size

def work (s : Process) : ℕ := Threads.work callbacksLeft Frame.work s

/-- An event that adds no fetch and brings no message. -/
def Event.Settles : Event → Prop
  | .registered .. => False
  | .arrived _ => False
  | _ => True

section

variable {sh sh' : Shared} {p q : ℕ} {e : Event} {es : List (ℕ × Event)} {f : Frame}
  {stack rest : List Frame} {r : Effect} {visited : List FetchId}

theorem callbacksLeft_congr (h : sh'.requests = sh.requests) :
    callbacksLeft sh' = callbacksLeft sh := by
  rw [callbacksLeft, callbacksLeft, h]

/-- The frame on top has turned into less. -/
structure Winds (sh : Shared) (n : ℕ) (r : Effect) : Prop where
  events : ∀ pe ∈ r.1, pe.2.Settles
  left : callbacksLeft (sh.applyAll r.1) + workOf Frame.work (sh.applyAll r.1) r.2 ≤
    callbacksLeft sh + n

/-- Without an event nothing else changes. -/
theorem Winds.of_frames {frames : List Frame} {n : ℕ} (h : workOf Frame.work sh frames ≤ n) :
    Winds sh n ([], frames) :=
  ⟨fun _ h => absurd h List.not_mem_nil, Nat.add_le_add_left h _⟩

/-- An event that leaves the open requests alone. -/
theorem Winds.single {frames : List Frame} {n : ℕ} (he : e.Settles)
    (hrequests : (sh.apply (p, e)).requests = sh.requests)
    (h : workOf Frame.work (sh.apply (p, e)) frames ≤ n) : Winds sh n ([(p, e)], frames) := by
  refine ⟨List.forall_mem_singleton.mpr he, ?_⟩
  show callbacksLeft (sh.apply (p, e)) + _ ≤ _
  rw [callbacksLeft_congr hrequests]
  exact Nat.add_le_add_left h _

theorem Winds.mono {n m : ℕ} (h : Winds sh n r) (hnm : n ≤ m) : Winds sh m r :=
  ⟨h.events, h.left.trans (Nat.add_le_add_left hnm _)⟩

theorem Winds.push {frames : List Frame} {n m : ℕ} (h : Winds sh n r)
    (hframes : workOf Frame.work (sh.applyAll r.1) frames ≤ m) :
    Winds sh (n + m) (r.1, r.2 ++ frames) := by
  refine ⟨h.events, ?_⟩
  have hleft := h.left
  show callbacksLeft (sh.applyAll r.1) + workOf Frame.work (sh.applyAll r.1) (r.2 ++ frames) ≤ _
  rw [workOf_append]
  omega

/-- An event before all others. -/
theorem Winds.cons {n : ℕ} (h : Winds (sh.apply (p, e)) n r) (he : e.Settles)
    (hrequests : (sh.apply (p, e)).requests = sh.requests) :
    Winds sh n ((p, e) :: r.1, r.2) := by
  refine ⟨List.forall_mem_cons.mpr ⟨he, h.events⟩, ?_⟩
  rw [← callbacksLeft_congr hrequests]
  exact h.left

theorem handleMessage_congr {m : Json} (hrequests : sh'.requests = sh.requests)
    (hpeer : (sh'.peers p).tables = (sh.peers p).tables) :
    sh'.handleMessage p m = sh.handleMessage p m := by
  simp only [Shared.handleMessage, Shared.complete, hrequests, hpeer]

end

/-! ### Who is in `receive` -/

/-- The peer whose telegram a frame works on. -/
def Frame.receives : Frame → Option ℕ
  | .receive p => some p
  | _ => none

def receivesOf (stack : List Frame) : List ℕ := stack.filterMap Frame.receives

/-- The peers some thread is in `receive` of. -/
def receivers (s : Process) : List ℕ := s.callStacks.flatMap receivesOf

/-- The telegrams of `p` being worked on. -/
def telegrams (sh : Shared) (p : ℕ) : ℕ := if (sh.peers p).telegram.isSome then 1 else 0

/-- An event that neither brings a telegram nor ends it. -/
def Event.KeepsTelegram : Event → Prop
  | .arrived _ => False
  | .left => False
  | _ => True

/-- What a turn does that neither takes up a telegram nor puts one down. -/
structure Passive (r : Effect) : Prop where
  events : ∀ pe ∈ r.1, pe.2.KeepsTelegram
  frames : receivesOf r.2 = []

section

variable {sh : Shared} {p q : ℕ} {e : Event} {es : List (ℕ × Event)} {f : Frame}
  {stack rest : List Frame} {r : Effect} {a : Action}

theorem telegrams_apply (he : e.KeepsTelegram) :
    telegrams (sh.apply (q, e)) p = telegrams sh p := by
  rw [telegrams, Shared.telegram_apply, telegrams]
  by_cases hp : p = q
  · rw [if_pos hp]
    cases e with
    | arrived => exact he.elim
    | left => exact he.elim
    | handled m =>
        show (if ((sh.peers p).telegram.map List.tail).isSome then 1 else 0) = _
        rw [Option.isSome_map]
    | _ => rfl
  · rw [if_neg hp]

theorem telegrams_left :
    telegrams (sh.apply (p, .left)) q = if q = p then 0 else telegrams sh q := by
  rw [telegrams, Shared.telegram_apply]
  by_cases hq : q = p
  · rw [if_pos hq, if_pos hq]
    rfl
  · rw [if_neg hq, if_neg hq]
    rfl

theorem telegrams_arrived {ms : List Json} :
    telegrams (sh.apply (p, .arrived ms)) q = if q = p then 1 else telegrams sh q := by
  rw [telegrams, Shared.telegram_apply]
  by_cases hq : q = p
  · rw [if_pos hq, if_pos hq]
    rfl
  · rw [if_neg hq, if_neg hq]
    rfl

theorem telegrams_applyAll (hes : ∀ pe ∈ es, pe.2.KeepsTelegram) :
    telegrams (sh.applyAll es) p = telegrams sh p := by
  induction es generalizing sh with
  | nil => rfl
  | cons pe es ih =>
      obtain ⟨he, hes⟩ := List.forall_mem_cons.mp hes
      exact (ih hes).trans (telegrams_apply he)

theorem receivesOf_append (l l' : List Frame) :
    receivesOf (l ++ l') = receivesOf l ++ receivesOf l' := List.filterMap_append

/-- What a turn does to those in `receive` it does to the telegrams. -/
def Balanced (sh : Shared) (stack : List Frame) (r : Effect) : Prop :=
  ∀ p, (receivesOf r.2).count p + telegrams sh p =
    (receivesOf stack).count p + telegrams (sh.applyAll r.1) p

theorem Passive.of_frames {frames : List Frame} (h : receivesOf frames = []) :
    Passive ([], frames) := ⟨fun _ h => absurd h List.not_mem_nil, h⟩

theorem Passive.cons (h : Passive r) (he : e.KeepsTelegram) : Passive ((p, e) :: r.1, r.2) :=
  ⟨List.forall_mem_cons.mpr ⟨he, h.events⟩, h.frames⟩

theorem Passive.single {frames : List Frame} (he : e.KeepsTelegram) (h : receivesOf frames = []) :
    Passive ([(p, e)], frames) := (Passive.of_frames h).cons he

theorem Passive.push {frames : List Frame} (h : Passive r) (hframes : receivesOf frames = []) :
    Passive (r.1, r.2 ++ frames) :=
  ⟨h.events, by rw [receivesOf_append, h.frames, hframes]; rfl⟩

theorem Passive.balanced (h : Passive r) (hrest : receivesOf rest = receivesOf stack) :
    Balanced sh stack (r.1, r.2 ++ rest) := by
  intro p
  rw [receivesOf_append, h.frames, hrest]
  exact congrArg _ (telegrams_applyAll h.events).symm

theorem Passive.balanced_idle (h : Passive r) : Balanced sh [] r := by
  intro p
  rw [h.frames]
  exact congrArg _ (telegrams_applyAll h.events).symm

theorem passive_sent {docs : List Json} : Passive (docs.map fun doc => (p, .sent doc), []) := by
  refine ⟨fun pe hpe => ?_, rfl⟩
  obtain ⟨doc, -, rfl⟩ := List.mem_map.mp hpe
  trivial

theorem passive_answerAdd {cause serial : ℕ} {item : Option Item} {result : Json} :
    Passive (Shared.answerAdd p cause item serial result, []) := by
  refine ⟨fun pe hpe => ?_, rfl⟩
  obtain ⟨i, -, rfl⟩ := List.mem_map.mp hpe
  trivial

theorem passive_request {doc : Json} {item : Option Item} {reply : Reply} :
    Passive (sh.request p doc item reply) :=
  Passive.single trivial (by cases reply <;> rfl)

theorem passive_call (c : Call) : Passive (sh.call c) := by
  cases c with
  | remove p kind path reply =>
      simp only [Shared.call]
      split
      · exact Passive.of_frames rfl
      · exact passive_request.cons trivial
  | add | addFetch | removeFetch => exact passive_request.cons trivial
  | request => exact passive_request
  | _ => exact Passive.of_frames rfl

theorem passive_complete {id : UInt32} {result : Json} : Passive (sh.complete p id result) := by
  unfold Shared.complete
  split
  · exact Passive.of_frames rfl
  next request _ _ => exact Passive.single trivial (by cases request.responseCallback <;> rfl)

theorem passive_callFetch {fetchId : FetchId} {fetcher : Fetcher} {params : Json} {status : Int} :
    Passive (Shared.callFetch p fetchId fetcher params status) := by
  unfold Shared.callFetch
  split
  · exact Passive.of_frames rfl
  · exact Passive.single trivial rfl

theorem passive_handleMessage {m : Json} (h : sh.handleMessage p m = some r) : Passive r := by
  unfold Shared.handleMessage at h
  split at h
  next => cases h
  all_goals obtain rfl := Option.some.inj h
  next => exact passive_complete
  next => exact passive_callFetch
  next callback _ _ => exact Passive.of_frames (by cases callback <;> rfl)
  next callback _ _ => exact Passive.of_frames (by cases callback <;> rfl)
  next => exact Passive.of_frames rfl

/-- The thread in `receive` goes on with the telegram, or puts it down. -/
theorem balanced_receive (h : sh.receive p = some r) :
    Balanced sh (.receive p :: rest) (r.1, r.2 ++ rest) := by
  have hleft : ∀ sh' : Shared, (∀ q, telegrams sh' q = telegrams sh q) →
      (sh.peers p).telegram.isSome → ∀ q, (receivesOf rest).count q + telegrams sh q =
        (receivesOf (.receive p :: rest)).count q + telegrams (sh'.apply (p, .left)) q := by
    intro sh' hsame hsome q
    have hcons : receivesOf (.receive p :: rest) = p :: receivesOf rest := rfl
    rw [hcons, List.count_cons]
    rw [telegrams_left, hsame]
    by_cases hq : q = p
    · subst hq
      simp [telegrams, hsome]
    · have hne : (p == q) = false := by simpa using Ne.symm hq
      simp [hq, hne]
  unfold Shared.receive at h
  split at h
  next => cases h
  next htel =>
    obtain rfl := Option.some.inj h
    exact hleft sh (fun _ => rfl) (by rw [htel]; rfl)
  next m ms htel =>
    have hhandled : (Event.handled m).KeepsTelegram := trivial
    split at h
    next =>
      obtain rfl := Option.some.inj h
      exact hleft (sh.apply (p, .handled m)) (fun q => telegrams_apply hhandled)
        (by rw [htel]; rfl)
    next es frames hm =>
      obtain rfl := Option.some.inj h
      have hpassive : Passive ((p, .handled m) :: es, frames) :=
        (passive_handleMessage hm).cons hhandled
      have hbalanced :=
        @Passive.balanced sh (.receive p :: rest) (.receive p :: rest) _ hpassive rfl
      simpa using hbalanced

theorem balanced_run {c : Choice} (h : sh.run f c = some r) :
    Balanced sh (f :: rest) (r.1, r.2 ++ rest) := by
  cases Shared.run_turn h with
  | receive h => exact balanced_receive h
  | execute cl doc =>
      exact (Passive.single (by trivial) (by cases cl.callback <;> rfl)).balanced rfl
  | await _ => exact passive_answerAdd.balanced rfl
  | invoke _ => exact (passive_answerAdd.push (show receivesOf [.user] = [] from rfl)).balanced rfl
  | answer _ | restore _ _ => exact passive_sent.balanced rfl
  | stop p destroy => exact (Passive.single (by trivial) (by cases destroy <;> rfl)).balanced rfl
  | visit _ _ => exact (passive_callFetch.push rfl).balanced rfl
  | clearRequests _ =>
      refine (Passive.single (by trivial) ?_).balanced rfl
      refine List.filterMap_eq_nil_iff.mpr fun f hf => ?_
      obtain ⟨id, -, hid⟩ := List.mem_filterMap.mp hf
      obtain ⟨cl, -, rfl⟩ := Option.map_eq_some_iff.mp hid
      rfl
  | sent _ | install _ _ _ | destroySync _ _ | fulfil _ | connect _ | clear _ _ =>
      exact (Passive.single (by trivial) rfl).balanced rfl
  | threw _ | dropped _ | refused _ | config _ | enter _ _ | done _ =>
      exact (Passive.of_frames rfl).balanced rfl

/-- An idle thread takes up a telegram. -/
theorem balanced_arrived {ms : List Json} {frames : List Frame}
    (htel : (sh.peers p).telegram = none) (hframes : receivesOf frames = [p]) :
    Balanced sh [] ([(p, .arrived ms)], frames) := by
  intro q
  show (receivesOf frames).count q + _ = 0 + telegrams (sh.apply (p, .arrived ms)) q
  rw [hframes, telegrams_arrived]
  by_cases hq : q = p
  · subst hq
    simp [telegrams, htel]
  · have hne : (p == q) = false := by simpa using Ne.symm hq
    simp [hq, hne, List.count_cons]

theorem balanced_effect (h : effect sh stack a = some r) : Balanced sh stack r := by
  cases a with
  | call c =>
      obtain ⟨-, h⟩ := Option.ite_none_right_eq_some.mp h
      obtain rfl := Option.some.inj h
      exact (passive_call c).balanced rfl
  | ret =>
      simp only [effect] at h
      split at h
      · obtain rfl := Option.some.inj h
        exact fun p => rfl
      · cases h
  | run c =>
      cases stack with
      | nil => cases h
      | cons f rest =>
          obtain ⟨r', hr', rfl⟩ := Option.map_eq_some_iff.mp h
          exact balanced_run hr'
  | telegram p ms =>
      obtain ⟨⟨hstack, htel, -⟩, hr⟩ := Option.ite_none_right_eq_some.mp h
      obtain rfl := Option.some.inj hr
      subst hstack
      exact balanced_arrived htel rfl
  | lost p =>
      obtain ⟨⟨hstack, htel⟩, hr⟩ := Option.ite_none_right_eq_some.mp h
      obtain rfl := Option.some.inj hr
      subst hstack
      exact balanced_arrived htel rfl
  | notifier key id =>
      simp only [effect] at h
      split at h
      · obtain ⟨p, -, rfl⟩ := Option.map_eq_some_iff.mp h
        exact passive_complete.balanced_idle
      · cases h

theorem count_receivers_step {s t : Process} {a : ℕ × Action}
    (h : ∀ p, (receivers s).count p = telegrams s.shared p)
    (hstep : processMachine.step s a = some t) :
    ∀ p, (receivers t).count p = telegrams t.shared p := by
  intro p
  obtain ⟨stack, r, hstack, hr, rfl⟩ := processMachine_step_eq_some.mp hstep
  obtain ⟨others, hbefore, hafter⟩ := flatMap_set_perm receivesOf hstack
  have hbalanced := balanced_effect hr p
  have hcount : (receivesOf stack).count p + others.count p = telegrams s.shared p := by
    rw [← h p, receivers, hbefore.count_eq, List.count_append]
  show (List.flatMap receivesOf (s.callStacks.set a.1 r.2)).count p =
    telegrams (s.shared.applyAll r.1) p
  rw [(hafter r.2).count_eq, List.count_append]
  omega

/-- **A telegram is worked on by one thread**, and a thread that is in
`receive` has one. -/
theorem receivers_run {C : Process → ℕ × Action → Prop} {n : ℕ} {as : List (ℕ × Action)}
    {s : Process} (h : processMachine.Run C (Threads.idle {} n) as s) :
    ∀ p, (receivers s).count p = telegrams s.shared p := by
  refine h.invariant (I := fun s => ∀ p, (receivers s).count p = telegrams s.shared p) ?_ ?_
  · intro p
    have hnone : receivers (Threads.idle {} n : Process) = [] := by
      refine List.flatMap_eq_nil_iff.mpr fun stack hstack => ?_
      rw [List.eq_of_mem_replicate hstack]
      rfl
    rw [hnone]
    rfl
  · exact fun s a t hs _ hstep => count_receivers_step hs hstep

/-! ### Who is stuck -/

theorem unprompted_iff {s : Process} {tid : ℕ} :
    Unprompted s (tid, a) ↔ a = .ret ∨ ∃ c, a = .run c := by
  cases a <;> simp [Unprompted]

end

end JetPeer
