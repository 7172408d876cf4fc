/-
JetPeer/Losses.lean

How often a fetch learns that the connection is lost.

Every `stop()` goes through the fetches and calls each callback with status
-1: it sets `m_stopped`, which nothing reads, and does not ask whether the
peer is stopped already.  The table of fetches outlives `stop()`, so the next
one, at the latest that of the destructor, calls the same callbacks again.

`losses` counts on the log, from the last successful `start()` on.  The
condition (`StopsOnce`) is that a stopped peer is stopped again only if it has
nothing left to stop, and that no `start()` succeeds while the loop of a
`stop()` is under way.  Then the loop of a peer is the only one of its kind
(`LossInv.single`), and what it has still to visit has heard of no loss.
-/
import JetPeer.Restore
import JetPeer.Rollback

namespace JetPeer

open Runs

/-! ### Counting -/

def Event.onLosses (fetchId : FetchId) : Event → ℕ → ℕ
  | .connected, _ => 0
  | .registered (.fetch i _) _ _, n => if i = fetchId then 0 else n
  | .called i _ _ status, n => if i = fetchId ∧ status = -1 then n + 1 else n
  | _, n => n

/-- How often a fetch of `p` was called with status -1 since it was added and
since the last successful `start()`. -/
def losses (p : ℕ) (fetchId : FetchId) : List (ℕ × Event) → ℕ
  | [] => 0
  | (q, e) :: log =>
      if q = p then e.onLosses fetchId (losses p fetchId log) else losses p fetchId log

/-- The loop of `stop()` a frame is in: the peer, and the fetches visited. -/
def Frame.loop : Frame → Option (ℕ × List FetchId)
  | .notify p _ visited => some (p, visited)
  | _ => none

def loops (stack : List Frame) : List (ℕ × List FetchId) := stack.filterMap Frame.loop

/-- The loops under way on all threads. -/
def allLoops (s : Process) : List (ℕ × List FetchId) := s.callStacks.flatMap loops

/-! ### The condition -/

/-- There is nothing to stop: no state, no method, and no fetch with a
callback. -/
structure Bare (t : Tables) : Prop where
  states : t.stateCallbacks.entries = []
  methods : t.methodCallbacks.entries = []
  fetchers : ∀ e ∈ t.fetchers.entries, e.2.callback = none

instance (t : Tables) : Decidable (Bare t) :=
  decidable_of_iff (t.stateCallbacks.entries = [] ∧ t.methodCallbacks.entries = [] ∧
      ∀ e ∈ t.fetchers.entries, e.2.callback = none)
    ⟨fun ⟨h, h', h''⟩ => ⟨h, h', h''⟩, fun ⟨h, h', h''⟩ => ⟨h, h', h''⟩⟩

/-- A peer is stopped while it is connected, or has nothing to stop and is in
no loop; and it is not started in the loop. -/
def StopsOnce (s : Process) (sh : Shared) : ℕ × Event → Prop
  | (p, .disconnected) => (sh.peers p).connected = true ∨
      Bare (sh.peers p).tables ∧ p ∉ (allLoops s).map Prod.fst
  | (p, .connected) => p ∉ (allLoops s).map Prod.fst
  | _ => True

instance (s : Process) (sh : Shared) : ∀ pe, Decidable (StopsOnce s sh pe)
  | (p, .disconnected) => inferInstanceAs (Decidable ((sh.peers p).connected = true ∨
      Bare (sh.peers p).tables ∧ p ∉ (allLoops s).map Prod.fst))
  | (p, .connected) => inferInstanceAs (Decidable (p ∉ (allLoops s).map Prod.fst))
  | (_, .registered ..) | (_, .removed _) | (_, .answered ..) | (_, .cleared _) | (_, .issued)
  | (_, .opened ..) | (_, .installed ..) | (_, .completed _) | (_, .cancelled)
  | (_, .destroyed _) | (_, .fulfilled ..) | (_, .arrived _) | (_, .handled _) | (_, .left)
  | (_, .called ..) | (_, .sent _) => .isTrue trivial

theorem Bare.callback_eq_none {t : Tables} (h : Bare t) {fetchId : FetchId} {f : Fetcher}
    (hf : t.fetchers.lookup fetchId = some f) : f.callback = none :=
  h.fetchers _ (AList.mem_lookup_iff.mp hf)

/-! ### What a turn does to the loops -/

/-- An event that neither begins a loop nor is a call of one. -/
def Event.Quiet : Event → Prop
  | .disconnected => False
  | .called _ _ _ status => status ≠ -1
  | _ => True

/-- Neither is there an event of a loop, nor is a loop pushed. -/
structure QuietEffect (r : Effect) : Prop where
  events : ∀ pe ∈ r.1, pe.2.Quiet
  frames : loops r.2 = []

/-- The loop on top visits a fetch. -/
structure Visits (sh : Shared) (stack : List Frame) (r : Effect) (p : ℕ) (fetchId : FetchId)
    (visited : List FetchId) (rest : List (ℕ × List FetchId)) (f : Fetcher) : Prop where
  before : loops stack = (p, visited) :: rest
  after : loops r.2 = (p, fetchId :: visited) :: rest
  new : fetchId ∉ visited
  lookup : (sh.peers p).tables.fetchers.lookup fetchId = some f
  events : r.1 = (Shared.callFetch p fetchId f .null (-1)).1

/-- A turn leaves the loops alone, begins one, or goes on with the one on
top. -/
inductive LoopTurn (sh : Shared) (stack : List Frame) (r : Effect) : Prop
  | quiet (hevents : ∀ pe ∈ r.1, pe.2.Quiet) (hloops : (loops r.2).Sublist (loops stack))
  | stop (p : ℕ) (hevents : r.1 = [(p, .disconnected)])
      (hloops : loops r.2 = (p, []) :: loops stack)
  | visit (p : ℕ) (fetchId : FetchId) (visited : List FetchId) (rest : List (ℕ × List FetchId))
      (f : Fetcher) (h : Visits sh stack r p fetchId visited rest f)

section

variable {sh : Shared} {stack rest : List Frame} {f : Frame} {a : Action} {r : Effect} {p : ℕ}

theorem loops_append (l l' : List Frame) : loops (l ++ l') = loops l ++ loops l' :=
  List.filterMap_append

theorem QuietEffect.of_frames {frames : List Frame} (h : loops frames = []) :
    QuietEffect ([], frames) := ⟨fun _ h => absurd h List.not_mem_nil, h⟩

theorem QuietEffect.cons {e : Event} (h : QuietEffect r) (he : e.Quiet) :
    QuietEffect ((p, e) :: r.1, r.2) :=
  ⟨List.forall_mem_cons.mpr ⟨he, h.events⟩, h.frames⟩

theorem QuietEffect.single {e : Event} {frames : List Frame} (he : e.Quiet)
    (hframes : loops frames = []) : QuietEffect ([(p, e)], frames) :=
  (QuietEffect.of_frames hframes).cons he

theorem QuietEffect.push (h : QuietEffect r) {frames : List Frame} (hframes : loops frames = []) :
    QuietEffect (r.1, r.2 ++ frames) :=
  ⟨h.events, by rw [loops_append, h.frames, hframes]; rfl⟩

/-- Frames in no loop, put on top of the stack or in place of its top. -/
theorem QuietEffect.turn (h : QuietEffect r) (hrest : rest.Sublist stack) :
    LoopTurn sh stack (r.1, r.2 ++ rest) := by
  refine .quiet h.events ?_
  rw [loops_append, h.frames, List.nil_append]
  exact hrest.filterMap _

theorem quiet_sent {docs : List Json} :
    QuietEffect (docs.map fun doc => (p, .sent doc), []) := by
  refine ⟨fun pe hpe => ?_, rfl⟩
  obtain ⟨doc, -, rfl⟩ := List.mem_map.mp hpe
  trivial

theorem quiet_answerAdd {cause serial : ℕ} {item : Option Item} {result : Json} :
    QuietEffect (Shared.answerAdd p cause item serial result, []) := by
  refine ⟨fun pe hpe => ?_, rfl⟩
  obtain ⟨i, -, rfl⟩ := List.mem_map.mp hpe
  trivial

theorem quiet_request {doc : Json} {item : Option Item} {reply : Reply} :
    QuietEffect (sh.request p doc item reply) := by
  exact QuietEffect.single trivial (by cases reply <;> rfl)

theorem quiet_call (c : Call) : QuietEffect (sh.call c) := by
  cases c with
  | remove p kind path reply =>
      simp only [Shared.call]
      split
      · exact QuietEffect.of_frames rfl
      · exact quiet_request.cons trivial
  | add | addFetch | removeFetch => exact quiet_request.cons trivial
  | request => exact quiet_request
  | _ => exact QuietEffect.of_frames rfl

theorem quiet_complete {id : UInt32} {result : Json} :
    QuietEffect (sh.complete p id result) := by
  unfold Shared.complete
  split
  · exact QuietEffect.of_frames rfl
  next request _ _ =>
    refine QuietEffect.single trivial ?_
    cases request.responseCallback <;> rfl

theorem loops_callFetch {fetchId : FetchId} {fetcher : Fetcher} {params : Json} {status : Int} :
    loops (Shared.callFetch p fetchId fetcher params status).2 = [] := by
  unfold Shared.callFetch
  split <;> rfl

theorem quiet_callFetch {fetchId : FetchId} {fetcher : Fetcher} {params : Json} {status : Int}
    (hstatus : status ≠ -1) : QuietEffect (Shared.callFetch p fetchId fetcher params status) := by
  unfold Shared.callFetch
  split
  · exact QuietEffect.of_frames rfl
  · exact QuietEffect.single hstatus rfl

theorem quiet_handleMessage {m : Json} (h : sh.handleMessage p m = some r) : QuietEffect r := by
  unfold Shared.handleMessage at h
  split at h
  next => cases h
  all_goals obtain rfl := Option.some.inj h
  next => exact quiet_complete
  next => exact quiet_callFetch (by decide)
  next callback _ _ => exact QuietEffect.of_frames (by cases callback <;> rfl)
  next callback _ _ => exact QuietEffect.of_frames (by cases callback <;> rfl)
  next => exact QuietEffect.of_frames rfl

theorem quiet_receive (h : sh.receive p = some r) : QuietEffect r := by
  unfold Shared.receive at h
  split at h
  next => cases h
  next =>
    obtain rfl := Option.some.inj h
    exact QuietEffect.single (by trivial) rfl
  next m ms _ =>
    split at h
    next =>
      obtain rfl := Option.some.inj h
      exact (QuietEffect.single (by trivial) rfl).cons (by trivial)
    next es frames hm =>
      obtain rfl := Option.some.inj h
      exact ((quiet_handleMessage hm).cons (by trivial)).push rfl

theorem loopTurn_run {c : Choice} (h : sh.run f c = some r) :
    LoopTurn sh (f :: rest) (r.1, r.2 ++ rest) := by
  have hrest : rest.Sublist (f :: rest) := List.sublist_cons_self f rest
  cases Shared.run_turn h with
  | execute cl doc =>
      refine QuietEffect.turn (QuietEffect.single (by trivial) ?_) hrest
      cases cl.callback <;> rfl
  | await _ => exact quiet_answerAdd.turn hrest
  | invoke _ => exact (quiet_answerAdd.push (show loops [.user] = [] from rfl)).turn hrest
  | receive h => exact (quiet_receive h).turn hrest
  | answer _ | restore _ _ => exact quiet_sent.turn hrest
  | stop p destroy =>
      refine .stop p rfl ?_
      cases destroy <;> rfl
  | enter p visited =>
      exact .quiet (fun _ h => absurd h List.not_mem_nil) (List.Sublist.refl _)
  | @visit p todo visited fetchId fetcher hlookup hnew =>
      -- the callback comes on top of the loop, which has one more fetch visited
      refine .visit p fetchId visited (loops rest) fetcher ⟨rfl, ?_, hnew, hlookup, rfl⟩
      show loops ((Shared.callFetch p fetchId fetcher .null (-1)).2 ++
        [.notify p (some todo) (fetchId :: visited)] ++ rest) = _
      rw [loops_append, loops_append, loops_callFetch]
      rfl
  | clearRequests _ =>
      refine QuietEffect.turn (QuietEffect.single (by trivial) ?_) hrest
      refine List.filterMap_eq_nil_iff.mpr fun f hf => ?_
      obtain ⟨id, -, hid⟩ := List.mem_filterMap.mp hf
      obtain ⟨cl, -, rfl⟩ := Option.map_eq_some_iff.mp hid
      rfl
  | sent _ | install _ _ _ | destroySync _ _ | fulfil _ | connect _ | clear _ _ =>
      exact (QuietEffect.single (by trivial) rfl).turn hrest
  | threw _ | dropped _ | refused _ | config _ | done _ =>
      exact (QuietEffect.of_frames rfl).turn hrest

/-- **What a turn does to the loops.** -/
theorem loopTurn_effect (h : effect sh stack a = some r) : LoopTurn sh stack r := by
  cases a with
  | call c =>
      obtain ⟨-, h⟩ := Option.ite_none_right_eq_some.mp h
      obtain rfl := Option.some.inj h
      exact (quiet_call c).turn (List.Sublist.refl _)
  | ret =>
      simp only [effect] at h
      split at h
      · obtain rfl := Option.some.inj h
        exact QuietEffect.turn (r := ([], [])) (.of_frames rfl) (List.sublist_cons_self _ _)
      · cases h
  | run c =>
      cases stack with
      | nil => cases h
      | cons f rest =>
          obtain ⟨r', hr', rfl⟩ := Option.map_eq_some_iff.mp h
          exact loopTurn_run hr'
  | telegram p ms =>
      obtain ⟨⟨hstack, -⟩, hr⟩ := Option.ite_none_right_eq_some.mp h
      obtain rfl := Option.some.inj hr
      exact .quiet (by simp [Event.Quiet]) (List.nil_sublist _)
  | lost p =>
      obtain ⟨⟨hstack, -⟩, hr⟩ := Option.ite_none_right_eq_some.mp h
      obtain rfl := Option.some.inj hr
      exact .quiet (by simp [Event.Quiet]) (List.nil_sublist _)
  | notifier key id =>
      simp only [effect] at h
      split at h
      · obtain ⟨p, -, rfl⟩ := Option.map_eq_some_iff.mp h
        exact .quiet quiet_complete.events (by rw [quiet_complete.frames]; exact List.nil_sublist _)
      · cases h

end

/-! ### The invariant -/

/-- No fetch with a callback that is still to be visited has heard of the
loss. -/
def Unheard (sh : Shared) (p : ℕ) (visited : List FetchId) : Prop :=
  ∀ fetchId f, (sh.peers p).tables.fetchers.lookup fetchId = some f → f.callback ≠ none →
    fetchId ∉ visited → losses p fetchId sh.log = 0

/-- What holds while these loops are under way. -/
structure Heard (L : List (ℕ × List FetchId)) (sh : Shared) : Prop where
  once : ∀ p fetchId, losses p fetchId sh.log ≤ 1
  connected : ∀ p, (sh.peers p).connected = true → ∀ fetchId, losses p fetchId sh.log = 0
  stopped : ∀ l ∈ L, (sh.peers l.1).connected = false
  unheard : ∀ l ∈ L, Unheard sh l.1 l.2

structure LossInv (s : Process) : Prop where
  single : ((allLoops s).map Prod.fst).Nodup
  heard : Heard (allLoops s) s.shared

section

variable {sh : Shared} {p q : ℕ} {e : Event} {fetchId : FetchId} {s : Process}
  {L : List (ℕ × List FetchId)}

theorem losses_apply_of_ne (h : p ≠ q) :
    losses q fetchId (sh.apply (p, e)).log = losses q fetchId sh.log := if_neg h

theorem losses_apply_self : losses p fetchId (sh.apply (p, e)).log =
    e.onLosses fetchId (losses p fetchId sh.log) := if_pos rfl

theorem onLosses_le (h : e.Quiet) (n : ℕ) : e.onLosses fetchId n ≤ n := by
  cases e with
  | connected => exact Nat.zero_le n
  | registered r serial params =>
      rcases r with ⟨k, path, cb⟩ | ⟨i, f⟩
      · exact le_rfl
      · simp only [Event.onLosses]
        split_ifs <;> omega
  | called i cb params status =>
      have hstatus : ¬ (i = fetchId ∧ status = -1) := fun h' => h h'.2
      rw [Event.onLosses, if_neg hstatus]
  | _ => exact le_rfl

theorem losses_apply_le (h : e.Quiet) :
    losses q fetchId (sh.apply (p, e)).log ≤ losses q fetchId sh.log := by
  by_cases hq : p = q
  · subst hq
    rw [losses_apply_self]
    exact onLosses_le h _
  · rw [losses_apply_of_ne hq]

/-- An entry after an event was there before or has just been made. -/
theorem lookup_onTables {t : Tables} {f : Fetcher}
    (h : (e.onTables t).fetchers.lookup fetchId = some f) :
    t.fetchers.lookup fetchId = some f ∨
      ∃ n params, e = .registered (.fetch fetchId f) n params := by
  by_cases hclear : e = .cleared .fetchers
  · subst hclear
    cases h
  · rw [onTables_fetchers t hclear] at h
    exact (lookup_onFetchers h).imp And.right id

/-- What is unheard of a loss stays so, unless it is called. -/
theorem Unheard.apply {visited : List FetchId} (h : Unheard sh q visited) (he : e.Quiet) :
    Unheard (sh.apply (p, e)) q visited := by
  intro fetchId f hf hcb hvisited
  by_cases hq : p = q
  · subst hq
    rw [Shared.tables_apply, if_pos rfl] at hf
    -- a fetch that has just been added starts at zero
    rcases lookup_onTables hf with hold | ⟨n, params, rfl⟩
    · exact Nat.le_zero.mp ((losses_apply_le he).trans (h fetchId f hold hcb hvisited).le)
    · rw [losses_apply_self]
      exact if_pos rfl
  · rw [Shared.tables_apply, if_neg (Ne.symm hq)] at hf
    rw [losses_apply_of_ne hq]
    exact h fetchId f hf hcb hvisited

/-- An event outside of the loops. -/
theorem Heard.apply (h : Heard (allLoops s) sh) (he : e.Quiet) (hG : StopsOnce s sh (p, e)) :
    Heard (allLoops s) (sh.apply (p, e)) where
  once q fetchId := (losses_apply_le he).trans (h.once q fetchId)
  connected q hq fetchId := by
    refine Nat.le_zero.mp ?_
    by_cases hpq : p = q
    · subst hpq
      rw [Shared.connected_apply, if_pos rfl] at hq
      cases e with
      | connected => exact (losses_apply_self.trans rfl).le
      | disconnected => exact he.elim
      | _ => exact (losses_apply_le he).trans (h.connected p hq fetchId).le
    · rw [Shared.connected_apply, if_neg (Ne.symm hpq)] at hq
      exact (losses_apply_le he).trans (h.connected q hq fetchId).le
  stopped l hl := by
    rw [Shared.connected_apply]
    split
    next hpl =>
      cases e with
      -- the condition: no start within a loop
      | connected => exact absurd (List.mem_map_of_mem hl) (hpl ▸ hG)
      | disconnected => exact he.elim
      | _ => exact h.stopped l hl
    next => exact h.stopped l hl
  unheard l hl := (h.unheard l hl).apply he

theorem Heard.applyAll {es : List (ℕ × Event)} (h : Heard (allLoops s) sh)
    (hes : ∀ pe ∈ es, pe.2.Quiet) (hG : Along (StopsOnce s) sh es) :
    Heard (allLoops s) (sh.applyAll es) := by
  induction es generalizing sh with
  | nil => exact h
  | cons pe es ih =>
      obtain ⟨he, hes⟩ := List.forall_mem_cons.mp hes
      exact ih (h.apply he hG.1) hes hG.2

theorem Heard.subset {L' : List (ℕ × List FetchId)} (h : Heard L sh) (hL : ∀ l ∈ L', l ∈ L) :
    Heard L' sh where
  once := h.once
  connected := h.connected
  stopped l hl := h.stopped l (hL l hl)
  unheard l hl := h.unheard l (hL l hl)

/-- A loop begins. -/
theorem Heard.stop (h : Heard (allLoops s) sh) (hG : StopsOnce s sh (p, .disconnected)) :
    Heard ((p, []) :: allLoops s) (sh.apply (p, .disconnected)) := by
  have hlosses : ∀ q fetchId, losses q fetchId (sh.apply (p, .disconnected)).log =
      losses q fetchId sh.log := by
    intro q fetchId
    show (if p = q then _ else _) = _
    split <;> rfl
  have htables : ∀ q, ((sh.apply (p, .disconnected)).peers q).tables = (sh.peers q).tables := by
    intro q
    rw [Shared.tables_apply]
    split <;> rfl
  have hunheard : ∀ q visited, Unheard sh q visited →
      Unheard (sh.apply (p, .disconnected)) q visited := by
    intro q visited h fetchId f hf
    rw [htables] at hf
    rw [hlosses]
    exact h fetchId f hf
  refine ⟨fun q fetchId => ?_, fun q hq fetchId => ?_, fun l hl => ?_, fun l hl => ?_⟩
  · rw [hlosses]
    exact h.once q fetchId
  · rw [hlosses]
    rw [Shared.connected_apply] at hq
    split at hq
    · cases hq
    · exact h.connected q hq fetchId
  · rw [Shared.connected_apply]
    split
    · rfl
    next hne =>
      rcases List.mem_cons.mp hl with rfl | hl
      · exact absurd rfl hne
      · exact h.stopped l hl
  · rcases List.mem_cons.mp hl with rfl | hl
    · refine hunheard p [] fun fetchId f hf hcb _ => ?_
      -- a connected peer has lost nothing yet, and a bare one has nobody to tell
      rcases hG with hconn | ⟨hbare, -⟩
      · exact h.connected p hconn fetchId
      · exact absurd (hbare.callback_eq_none hf) hcb
    · exact hunheard _ _ (h.unheard l hl)

/-- The loop of `p` visits a fetch; it is the only loop of `p`. -/
theorem Heard.visit {visited : List FetchId} {f : Fetcher} (h : Heard ((p, visited) :: L) sh)
    (hsingle : p ∉ L.map Prod.fst) (hnew : fetchId ∉ visited)
    (hf : (sh.peers p).tables.fetchers.lookup fetchId = some f) :
    Heard ((p, fetchId :: visited) :: L)
      (sh.applyAll (Shared.callFetch p fetchId f .null (-1)).1) := by
  have hmem : (p, visited) ∈ (p, visited) :: L := List.mem_cons_self
  have hstopped : (sh.peers p).connected = false := h.stopped _ hmem
  unfold Shared.callFetch
  rcases hcb : f.callback with - | cb
  · -- nothing happens, and the fetch counts as visited
    refine ⟨h.once, h.connected, fun l hl => ?_, fun l hl => ?_⟩
    · rcases List.mem_cons.mp hl with rfl | hl
      · exact hstopped
      · exact h.stopped l (List.mem_cons_of_mem _ hl)
    · rcases List.mem_cons.mp hl with rfl | hl
      · intro i g hg hgcb hi
        exact h.unheard _ hmem i g hg hgcb fun hi' => hi (List.mem_cons_of_mem _ hi')
      · exact h.unheard l (List.mem_cons_of_mem _ hl)
  · have hzero : losses p fetchId sh.log = 0 :=
      h.unheard _ hmem fetchId f hf (by rw [hcb]; exact Option.some_ne_none cb) hnew
    have hpeers : ∀ q, ((sh.apply (p, .called fetchId cb .null (-1))).peers q).tables =
        (sh.peers q).tables := by
      intro q
      rw [Shared.tables_apply]
      split <;> rfl
    have hconn : ∀ q, ((sh.apply (p, .called fetchId cb .null (-1))).peers q).connected =
        (sh.peers q).connected := by
      intro q
      rw [Shared.connected_apply]
      split <;> rfl
    -- one count goes up, all others stay
    have hother : ∀ q i, ¬ (q = p ∧ i = fetchId) →
        losses q i (sh.apply (p, .called fetchId cb .null (-1))).log = losses q i sh.log := by
      intro q i hne
      by_cases hq : p = q
      · subst hq
        rw [losses_apply_self]
        exact if_neg fun h => hne ⟨rfl, h.1.symm⟩
      · exact losses_apply_of_ne hq
    show Heard _ (sh.apply (p, .called fetchId cb .null (-1)))
    refine ⟨fun q i => ?_, fun q hq i => ?_, fun l hl => ?_, fun l hl => ?_⟩
    · by_cases hqi : q = p ∧ i = fetchId
      · obtain ⟨rfl, rfl⟩ := hqi
        rw [losses_apply_self, hzero]
        exact (if_pos ⟨rfl, rfl⟩).le
      · rw [hother q i hqi]
        exact h.once q i
    · rw [hconn] at hq
      rw [hother q i fun h' => ?_]
      · exact h.connected q hq i
      · obtain ⟨rfl, -⟩ := h'
        rw [hstopped] at hq
        cases hq
    · rw [hconn]
      rcases List.mem_cons.mp hl with rfl | hl
      · exact hstopped
      · exact h.stopped l (List.mem_cons_of_mem _ hl)
    · intro i g hg hgcb hi
      rw [hpeers] at hg
      rcases List.mem_cons.mp hl with rfl | hl
      · rw [hother p i fun h' => hi (h'.2 ▸ List.mem_cons_self)]
        exact h.unheard _ hmem i g hg hgcb fun hi' => hi (List.mem_cons_of_mem _ hi')
      · rw [hother l.1 i fun h' => hsingle (h'.1 ▸ List.mem_map_of_mem hl)]
        exact h.unheard l (List.mem_cons_of_mem _ hl) i g hg hgcb hi

theorem LossInv.step {t : Process} {tid : ℕ} {a : Action} (h : LossInv s)
    (hG : Meets StopsOnce s (tid, a)) (hstep : processMachine.step s (tid, a) = some t) :
    LossInv t := by
  obtain ⟨stack, r, hstack, hr, rfl⟩ := processMachine_step_eq_some.mp hstep
  obtain ⟨others, hperm, hset⟩ := flatMap_set_perm loops hstack
  have hG := hG stack hstack r hr
  have hnodup := (hperm.map Prod.fst).nodup_iff.mp h.single
  have hmem : ∀ l, l ∈ allLoops s ↔ l ∈ loops stack ++ others := fun l => hperm.mem_iff
  -- it is enough to know the loops of the thread before and after
  suffices hsuff : ((loops r.2 ++ others).map Prod.fst).Nodup ∧
      Heard (loops r.2 ++ others) (s.shared.applyAll r.1) from
    ⟨((hset r.2).map Prod.fst).nodup_iff.mpr hsuff.1,
      hsuff.2.subset fun l hl => (hset r.2).mem_iff.mp hl⟩
  cases loopTurn_effect hr with
  | quiet hevents hloops =>
      refine ⟨((hloops.append_right others).map Prod.fst).nodup hnodup, ?_⟩
      exact (h.heard.applyAll hevents hG).subset fun l hl =>
        (hmem l).mpr ((hloops.append_right others).subset hl)
  | stop p hevents hloops =>
      rw [hevents] at hG
      rw [hloops, hevents]
      refine ⟨List.nodup_cons.mpr ⟨fun hp => ?_, hnodup⟩,
        (h.heard.stop hG.1).subset fun l hl => ?_⟩
      · -- a loop of `p` would mean that `p` is stopped
        have hp : p ∈ (allLoops s).map Prod.fst := (hperm.map Prod.fst).mem_iff.mpr hp
        rcases hG.1 with hconn | ⟨-, hno⟩
        · obtain ⟨l, hl, rfl⟩ := List.mem_map.mp hp
          rw [h.heard.stopped l hl] at hconn
          cases hconn
        · exact hno hp
      · exact (List.mem_cons.mp hl).elim (fun h => h ▸ List.mem_cons_self)
          fun hl => List.mem_cons_of_mem _ ((hmem l).mpr hl)
  | visit p fetchId visited rest f hv =>
      have hheard : Heard (loops stack ++ others) s.shared :=
        h.heard.subset fun l hl => (hmem l).mpr hl
      rw [hv.before] at hnodup hheard
      rw [hv.after, hv.events]
      exact ⟨hnodup, hheard.visit (List.nodup_cons.mp hnodup).1 hv.new hv.lookup⟩

theorem lossInv_idle (n : ℕ) : LossInv (Threads.idle {} n) := by
  have hloops : allLoops (Threads.idle {} n) = [] := by
    refine List.flatMap_eq_nil_iff.mpr fun stack hstack => ?_
    rw [List.eq_of_mem_replicate hstack]
    rfl
  refine ⟨by rw [hloops]; exact List.nodup_nil, ?_⟩
  rw [hloops]
  exact ⟨fun _ _ => Nat.zero_le 1, fun _ h => (nomatch h),
    fun _ h => absurd h List.not_mem_nil, fun _ h => absurd h List.not_mem_nil⟩

end

/-! ### A stop with nothing to stop -/

/-- Nothing but a `stop()` touches the registries of `p`. -/
def Untouched (p : ℕ) (_ : Process) (sh : Shared) : ℕ × Event → Prop
  | (q, .registered ..) => q ≠ p
  | (q, .removed i) => q = p → ¬ (sh.peers p).tables.Has i
  | (q, .answered _ i _ _) => q = p → ¬ (sh.peers p).tables.Has i
  | (q, .cleared .fetchers) => q ≠ p
  | _ => True

instance (p : ℕ) (s : Process) (sh : Shared) : ∀ pe, Decidable (Untouched p s sh pe)
  | (q, .registered ..) => inferInstanceAs (Decidable (q ≠ p))
  | (q, .removed i) => inferInstanceAs (Decidable (q = p → ¬ (sh.peers p).tables.Has i))
  | (q, .answered _ i _ _) => inferInstanceAs (Decidable (q = p → ¬ (sh.peers p).tables.Has i))
  | (q, .cleared .fetchers) => inferInstanceAs (Decidable (q ≠ p))
  | (_, .cleared .states) | (_, .cleared .methods) | (_, .issued) | (_, .opened ..)
  | (_, .installed ..) | (_, .completed _) | (_, .cancelled) | (_, .destroyed _)
  | (_, .fulfilled ..) | (_, .connected) | (_, .disconnected) | (_, .arrived _)
  | (_, .handled _) | (_, .left) | (_, .called ..) | (_, .sent _) => .isTrue trivial

section

variable {sh : Shared} {p q : ℕ} {e : Event} {s t : Process} {stack : List Frame}

/-- Clearing states or methods changes nothing where there are none. -/
theorem Bare.clear_eq_self {t : Tables} (h : Bare t) {part : Part} (hpart : part ≠ .fetchers) :
    t.clear part = t := by
  have hno : ∀ {α β : Type} {m : AList fun _ : α => β} {a : α}, m.entries = [] → a ∉ m := by
    intro α β m a hm ha
    have hmem : a ∈ m.entries.map Sigma.fst := AList.mem_keys.mp ha
    rw [hm] at hmem
    exact absurd hmem List.not_mem_nil
  refine Tables.clear_eq_self fun i hi => ?_
  rcases i with ⟨k, path⟩ | fetchId
  · cases k with
    | state => exact hno h.states
    | method => exact hno h.methods
  · exact absurd hi.symm hpart

/-- The registries of `p` stay as they are. -/
theorem onTables_untouched (hbare : Bare (sh.peers p).tables) (hG : Untouched p s sh (p, e)) :
    e.onTables (sh.peers p).tables = (sh.peers p).tables := by
  cases e with
  | registered => exact absurd rfl hG
  | removed i => exact Tables.discard_eq_self (hG rfl)
  | answered cause i n result =>
      show Tables.rollBack result i _ = _
      rw [Tables.rollBack_eq, Tables.discard_eq_self (hG rfl), ite_self]
  | cleared part =>
      show (sh.peers p).tables.clear part = _
      refine hbare.clear_eq_self ?_
      rintro rfl
      exact absurd rfl hG
  | _ => rfl

/-- While there is nothing to stop, no fetch callback of the peer is called. -/
theorem untouched_run {as : List (ℕ × Action)}
    (h : processMachine.Run (Meets (Untouched p)) s as t) (hbare : Bare (s.shared.peers p).tables) :
    (t.shared.peers p).tables = (s.shared.peers p).tables ∧
      ∀ fetchId cb params status, (p, .called fetchId cb params status) ∈ t.shared.log →
        (p, .called fetchId cb params status) ∈ s.shared.log := by
  refine (process_invariant (J := fun _ _ => True)
    (I := fun sh => (sh.peers p).tables = (s.shared.peers p).tables ∧
      ∀ fetchId cb params status, (p, .called fetchId cb params status) ∈ sh.log →
        (p, .called fetchId cb params status) ∈ s.shared.log)
    h (fun _ _ hC => hC) ⟨rfl, fun _ _ _ _ h => h⟩ (fun _ _ _ _ => trivial) ?_
    fun _ _ _ _ _ _ _ _ _ _ _ => trivial).1
  rintro s' stack sh ⟨q, e⟩ - ⟨htables, hcalls⟩ - hproper hG
  rw [← htables] at hbare
  refine ⟨⟨?_, fun fetchId cb params status hmem => ?_⟩, fun _ _ _ _ => trivial⟩
  · rw [Shared.tables_apply, ← htables]
    split
    next hq =>
      subst hq
      exact onTables_untouched hbare hG
    next => rfl
  · rcases List.mem_cons.mp hmem with heq | hold
    · -- only a fetch with a callback is called
      obtain ⟨rfl, rfl⟩ := Prod.mk.inj heq
      obtain ⟨⟨f, hf, hcb⟩, -⟩ := hproper
      rw [hbare.callback_eq_none hf] at hcb
      cases hcb
    · exact hcalls _ _ _ _ hold

end

/-! ### One notification per connection -/

/-- **A fetch learns of a loss at most once per connection**, and stopping a
stopped peer calls no fetch and changes no table, in every run in which a
peer is stopped once. -/
theorem losses_at_most_once {n : ℕ} {as : List (ℕ × Action)} {s : Process}
    (h : processMachine.Run (Meets StopsOnce) (Threads.idle {} n) as s) :
    (∀ p fetchId, losses p fetchId s.shared.log ≤ 1) ∧
      ∀ tid p destroy rest t bs u, s.callStacks[tid]? = some (.stop p destroy :: rest) →
        (s.shared.peers p).connected = false → Meets StopsOnce s (tid, .run .go) →
        processMachine.step s (tid, .run .go) = some t →
        processMachine.Run (Meets (Untouched p)) t bs u →
          (u.shared.peers p).tables = (s.shared.peers p).tables ∧
            ∀ fetchId cb params status, (p, .called fetchId cb params status) ∈ u.shared.log →
              (p, .called fetchId cb params status) ∈ s.shared.log := by
  have hinv : LossInv s := h.invariant (lossInv_idle n) fun _ _ _ ht hG hstep => ht.step hG hstep
  refine ⟨hinv.heard.once, ?_⟩
  intro tid p destroy rest t bs u hstack hconn hG hstep hrun
  obtain ⟨stack, r, hs, hr, rfl⟩ := processMachine_step_eq_some.mp hstep
  obtain rfl : .stop p destroy :: rest = stack := Option.some.inj (hstack.symm.trans hs)
  obtain rfl := Option.some.inj hr
  -- the peer is stopped, so the other half of the condition holds
  have hbare : Bare (s.shared.peers p).tables := by
    rcases (hG _ hs _ rfl).1 with hc | ⟨hbare, -⟩
    · rw [hconn] at hc
      cases hc
    · exact hbare
  have htables : ((s.shared.apply (p, .disconnected)).peers p).tables =
      (s.shared.peers p).tables := by
    rw [Shared.peers_apply_self]
    rfl
  obtain ⟨hsame, hcalls⟩ := untouched_run hrun (htables.symm ▸ hbare)
  refine ⟨hsame.trans htables, fun fetchId cb params status hmem => ?_⟩
  rcases List.mem_cons.mp (hcalls fetchId cb params status hmem) with heq | hold
  · cases heq
  · exact hold

/-- A peer connects and fetches, and the connection is lost. -/
def fetchAndLose : List (ℕ × Action) :=
  [(0, .call (.resume 0)), (0, .run .go), (0, .run .go), (0, .run .go), (0, .run (.order [])),
    (0, .call (.addFetch 0 {} (some 0) .ignore)), (0, .run .go),
    (0, .lost 0), (0, .run .go), (0, .run .go), (0, .run (.next 1)), (0, .ret), (0, .run .done),
    (0, .run .go), (0, .run .go), (0, .run (.cancel [])), (0, .run .go)]

/-- The fetch is removed before the peer is stopped again. -/
def removeAndStop : List (ℕ × Action) :=
  [(0, .call (.removeFetch 0 1 .ignore)), (0, .run (.threw ⟨-1, ""⟩)), (0, .call (.stop 0))]

theorem losses_at_most_once_two :
    ∃ s t u, processMachine.Run (Meets StopsOnce) (Threads.idle {} 1)
        (fetchAndLose ++ removeAndStop) s ∧ losses 0 1 s.shared.log ≤ 1 ∧
      processMachine.step s (0, .run .go) = some t ∧
      processMachine.Run (Meets (Untouched 0)) t
        [(0, .run .go), (0, .run .done), (0, .run .go), (0, .run .go), (0, .run (.cancel []))] u ∧
      (u.shared.peers 0).tables = (s.shared.peers 0).tables := by
  have h : ∃ s t u, processMachine.evalIn (Meets StopsOnce) (Threads.idle {} 1)
        (fetchAndLose ++ removeAndStop) = some s ∧
      s.callStacks[0]? = some [.stop 0 false] ∧ (s.shared.peers 0).connected = false ∧
      Meets StopsOnce s (0, .run .go) ∧ processMachine.step s (0, .run .go) = some t ∧
      processMachine.evalIn (Meets (Untouched 0)) t
        [(0, .run .go), (0, .run .done), (0, .run .go), (0, .run .go), (0, .run (.cancel []))]
          = some u := by
    refine ⟨_, _, _, rfl, rfl, rfl, of_decide_eq_true rfl, rfl, rfl⟩
  obtain ⟨s, t, u, hrun, hstack, hconn, hG, hstep, hrest⟩ := h
  have hrun := Machine.Run.of_evalIn hrun
  have hrest := Machine.Run.of_evalIn hrest
  have hlosses := losses_at_most_once hrun
  exact ⟨s, t, u, hrun, hlosses.1 0 1, hstep, hrest,
    (hlosses.2 0 0 false [] t _ u hstack hconn hG hstep hrest).1⟩

/-- **The destructor calls the fetches of a stopped peer once more.** -/
theorem destructor_repeats_loss :
    ∃ s, processMachine.Run Machine.Always (Threads.idle {} 1)
        (fetchAndLose ++ [(0, .call (.destroy 0)), (0, .run .go), (0, .run .go),
          (0, .run (.next 1))]) s ∧ losses 0 1 s.shared.log = 2 := by
  have h : ∃ s, processMachine.eval (Threads.idle {} 1)
        (fetchAndLose ++ [(0, .call (.destroy 0)), (0, .run .go), (0, .run .go),
          (0, .run (.next 1))]) = some s ∧ losses 0 1 s.shared.log = 2 := ⟨_, rfl, rfl⟩
  obtain ⟨s, hrun, hlosses⟩ := h
  exact ⟨s, Machine.Run.of_eval hrun, hlosses⟩

end JetPeer
