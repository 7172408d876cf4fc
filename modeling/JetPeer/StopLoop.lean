/-
JetPeer/StopLoop.lean

The loop of `stop()` over `m_fetchers`.

    for (auto &iter: m_fetchers) {
        fetchCallback_t& callback = iter.second.callback;
        try { callback(empty, -1); } catch(...) {}
    }

The mutex is recursive, so the callbacks may add fetches and remove them,
their own as well.  `m_fetchers` is an `unordered_map`: its elements come in
any order, and the loop is a walk through a hash table (`Walks`).  An element
is an entry with the number of its registration, for a fetch that is removed
and added again is another one.

    unregisterFetch    `erase(fetchId)`, of the entry with this key or of none
    registerFetch      `m_fetchers[fetchId] = fetcher`, in place of the entry
                       with this key, or as a new element

The loop stays on its feet as long as no callback removes the fetch it is
called for, and no new fetch makes the table rehash (`KeepsPosition`).
-/
import JetPeer.Registration
import JetPeer.Walks

namespace JetPeer

open Runs Walks

/-! ### The loop -/

/-- An element of `m_fetchers`, with the number of its registration. -/
structure FetchEntry where
  serial : ℕ
  fetchId : FetchId
  fetcher : Fetcher
  deriving DecidableEq

/-- What `m_fetchers` may be: no number and no key stands for two entries, and
there are no more entries than buckets. -/
structure FetchTable where
  entries : List FetchEntry
  buckets : ℕ
  /-- How many fetches have been registered. -/
  registered : ℕ
  serials : (entries.map FetchEntry.serial).Nodup
  keys : (entries.map FetchEntry.fetchId).Nodup
  room : entries.length ≤ buckets
  old : ∀ e ∈ entries, e.serial < registered

structure StopLoop where
  walk : Walk FetchEntry
  registered : ℕ
  /-- How often `m_sfetchId` was incremented. -/
  fetchCount : ℕ

/-- The callbacks add and remove fetches in between.  Where a new element
comes to stand, and with how many buckets, is up to the hash table. -/
inductive LoopAction where
  | call
  | back (threw : Bool)
  | addFetch (m : Matcher) (callback : Option Callback) (before : Bool) (i buckets : ℕ)
  | removeFetch (fetchId : FetchId)

namespace StopLoop

/-- The loop begins with this content of `m_fetchers`. -/
def start (t : FetchTable) (fetchCount : ℕ) : StopLoop where
  walk := Walk.start t.entries t.buckets
  registered := t.registered
  fetchCount := fetchCount

/-- The entry with this key. -/
def find (s : StopLoop) (fetchId : FetchId) : Option FetchEntry :=
  s.walk.elements.find? fun e => e.fetchId = fetchId

/-- The entry `addFetchAsync` makes, with the id of `createFetchId`. -/
def newEntry (s : StopLoop) (m : Matcher) (callback : Option Callback) : FetchEntry where
  serial := s.registered
  fetchId := (BitVec.ofNat 32 (s.fetchCount + 1)).toInt
  fetcher := ⟨callback, m⟩

end StopLoop

/-- What a step is to the table. -/
def LoopAction.change (s : StopLoop) : LoopAction → Option (Change FetchEntry)
  | .call => some .enter
  | .back _ => some .leave
  | .addFetch m callback before i buckets =>
      let entry := s.newEntry m callback
      match s.find entry.fetchId with
      | some old => some (.replace old entry)
      | none => some (.insert entry before i buckets)
  | .removeFetch fetchId => (s.find fetchId).map .erase

/-- The counters after a step. -/
def LoopAction.count : LoopAction → ℕ
  | .addFetch .. => 1
  | _ => 0

/-- One step; to remove a fetch that is not there changes nothing. -/
def loopStep (s : StopLoop) (a : LoopAction) : Option StopLoop :=
  match a.change s with
  | some c => (walkStep s.walk c).map fun w =>
      ⟨w, s.registered + a.count, s.fetchCount + a.count⟩
  | none => if s.walk.inBody then some s else none

def stopLoopMachine : Machine StopLoop LoopAction := ⟨loopStep⟩

/-! ### The condition -/

/-- No callback removes the fetch it is called for, and a new fetch finds
buckets enough. -/
def KeepsPosition (s : StopLoop) : LoopAction → Prop
  | .removeFetch fetchId => ∀ e ∈ s.walk.rest.head?, e.fetchId ≠ fetchId
  | .addFetch m callback .. => s.find (s.newEntry m callback).fetchId = none →
      s.walk.elements.length + 1 ≤ s.walk.buckets
  | _ => True

section

variable {s u : StopLoop} {a : LoopAction} {t : FetchTable}

theorem find_eq_some {fetchId : FetchId} {e : FetchEntry} (h : s.find fetchId = some e) :
    e ∈ s.walk.elements ∧ e.fetchId = fetchId :=
  ⟨List.mem_of_find?_eq_some h, by simpa using List.find?_some h⟩

theorem loopStep_eq_some (h : loopStep s a = some u) :
    (∃ c, a.change s = some c ∧ walkStep s.walk c = some u.walk ∧
        u.registered = s.registered + a.count) ∨
      (a.change s = none ∧ u = s) := by
  unfold loopStep at h
  split at h
  next c hc =>
    obtain ⟨w, hw, rfl⟩ := Option.map_eq_some_iff.mp h
    exact .inl ⟨c, hc, hw, rfl⟩
  next hc =>
    obtain ⟨-, h⟩ := Option.ite_none_right_eq_some.mp h
    exact .inr ⟨hc, (Option.some.inj h).symm⟩

/-- The condition is that of the walk. -/
theorem keepsPosition_iff {c : Change FetchEntry}
    (hkeys : (s.walk.elements.map FetchEntry.fetchId).Nodup) (hc : a.change s = some c) :
    KeepsPosition s a ↔ Keeps s.walk c := by
  cases a with
  | call =>
      obtain rfl := Option.some.inj hc
      exact Iff.rfl
  | back threw =>
      obtain rfl := Option.some.inj hc
      exact Iff.rfl
  | addFetch m callback before i buckets =>
      simp only [LoopAction.change] at hc
      split at hc
      next old hold =>
        obtain rfl := Option.some.inj hc
        exact ⟨fun _ => trivial, fun _ hnone => absurd (hnone.symm.trans hold) nofun⟩
      next hnone =>
        obtain rfl := Option.some.inj hc
        exact ⟨fun h => h hnone, fun h _ => h⟩
  | removeFetch fetchId =>
      obtain ⟨e, he, rfl⟩ := Option.map_eq_some_iff.mp hc
      obtain ⟨hmem, hid⟩ := find_eq_some he
      constructor
      · exact fun h hhead => h e hhead hid
      · -- no other entry has the key
        intro h e' he' hid'
        have hmem' : e' ∈ s.walk.elements :=
          List.mem_append_right _ (List.mem_of_mem_head? he')
        exact h (List.inj_on_of_nodup_map hkeys hmem' hmem (hid'.trans hid.symm) ▸ he')

/-! ### The invariant -/

/-- The walk is well, keys are unique, and a number is new until it is
given. -/
structure LoopInv (t : FetchTable) (s : StopLoop) : Prop where
  walk : WalkInv t.entries s.walk
  keys : (s.walk.elements.map FetchEntry.fetchId).Nodup
  old : ∀ e, s.walk.Known e → e.serial < s.registered
  added : s.walk.added.length + t.registered = s.registered

theorem loopInv_start (t : FetchTable) (fetchCount : ℕ) :
    LoopInv t (StopLoop.start t fetchCount) where
  walk := walkInv_start t.serials.of_map t.buckets
  keys := t.keys
  old e h := by
    rcases h with h | h | h
    · exact t.old e h
    · exact absurd h List.not_mem_nil
    · exact absurd h List.not_mem_nil
  added := Nat.zero_add _

/-- What a step is to the table: a new entry has a new number, and the key of
the entry it replaces or a new one. -/
theorem change_cases {c : Change FetchEntry} (hc : a.change s = some c) :
    ((c = .enter ∨ c = .leave ∨ ∃ x, c = .erase x) ∧ a.count = 0) ∨
      (∃ x y, c = .replace x y ∧ y.serial = s.registered ∧ y.fetchId = x.fetchId ∧ a.count = 1) ∨
      ∃ y before i buckets, c = .insert y before i buckets ∧ y.serial = s.registered ∧
        s.find y.fetchId = none ∧ a.count = 1 := by
  cases a with
  | call => exact .inl ⟨.inl (Option.some.inj hc).symm, rfl⟩
  | back threw => exact .inl ⟨.inr (.inl (Option.some.inj hc).symm), rfl⟩
  | addFetch m callback before i buckets =>
      simp only [LoopAction.change] at hc
      split at hc
      next old hold =>
        exact .inr (.inl ⟨old, _, (Option.some.inj hc).symm, rfl, (find_eq_some hold).2.symm, rfl⟩)
      next hnone =>
        exact .inr (.inr ⟨_, before, i, buckets, (Option.some.inj hc).symm, rfl, hnone, rfl⟩)
  | removeFetch fetchId =>
      obtain ⟨e, -, rfl⟩ := Option.map_eq_some_iff.mp hc
      exact .inl ⟨.inr (.inr ⟨e, rfl⟩), rfl⟩

theorem change_new {c : Change FetchEntry} (hc : a.change s = some c) :
    c.new.toList.length = a.count ∧ ∀ y, c.new = some y → y.serial = s.registered := by
  rcases change_cases hc with ⟨rfl | rfl | ⟨x, rfl⟩, hcount⟩ | ⟨x, y, rfl, hy, -, hcount⟩ |
    ⟨y, before, i, buckets, rfl, hy, -, hcount⟩ <;> rw [hcount]
  · exact ⟨rfl, nofun⟩
  · exact ⟨rfl, nofun⟩
  · exact ⟨rfl, nofun⟩
  · exact ⟨rfl, fun _ h => Option.some.inj h ▸ hy⟩
  · exact ⟨rfl, fun _ h => Option.some.inj h ▸ hy⟩

/-- Keys stay unique. -/
theorem keys_step {c : Change FetchEntry} (h : (s.walk.elements.map FetchEntry.fetchId).Nodup)
    (hc : a.change s = some c) (hwalk : walkStep s.walk c = some u.walk) :
    (u.walk.elements.map FetchEntry.fetchId).Nodup := by
  rcases change_cases hc with ⟨rfl | rfl | ⟨x, rfl⟩, -⟩ | ⟨x, y, rfl, -, hkey, -⟩ |
    ⟨y, before, i, buckets, rfl, -, hnone, -⟩
  · rwa [elements_enter hwalk]
  · rwa [elements_leave hwalk]
  · exact ((elements_erase hwalk).map _).nodup h
  · -- the entry in place has the same key
    have hmap : (swap x y s.walk.elements).map FetchEntry.fetchId =
        s.walk.elements.map FetchEntry.fetchId := by
      rw [swap, List.map_map]
      refine List.map_congr_left fun e _ => ?_
      show FetchEntry.fetchId (if e = x then y else e) = e.fetchId
      split_ifs with hex
      · rw [hkey, hex]
      · rfl
    rwa [elements_replace hwalk, hmap]
  · rw [((elements_insert hwalk).map _).nodup_iff, List.map_cons, List.nodup_cons]
    refine ⟨fun hmem => ?_, h⟩
    -- the lookup would have found the key
    obtain ⟨e, he, hid⟩ := List.mem_map.mp hmem
    exact List.find?_eq_none.mp hnone e he (by simpa using hid)

/-- **One step** of the loop keeps the invariant, if it keeps the position. -/
theorem LoopInv.step (h : LoopInv t s) (hkeeps : KeepsPosition s a)
    (hstep : stopLoopMachine.step s a = some u) : LoopInv t u := by
  rcases loopStep_eq_some hstep with ⟨c, hc, hwalk, hregistered⟩ | ⟨-, rfl⟩
  · have hkeepsWalk : Keeps s.walk c := (keepsPosition_iff h.keys hc).mp hkeeps
    obtain ⟨hlength, hnew⟩ := change_new hc
    refine ⟨h.walk.step hkeepsWalk hwalk, keys_step h.keys hc hwalk, fun e he => ?_, ?_⟩
    · rw [hregistered]
      -- old numbers are below the counter, and the new one is the counter itself
      rcases walkStep_known hwalk he with hold | hthis
      · exact (h.old e hold).trans_le (Nat.le_add_right _ _)
      · rw [hnew e hthis, ← hlength, hthis]
        exact Nat.lt_succ_self _
    · have hsum := h.added
      rw [walkStep_added hwalk, List.length_append, hlength, hregistered]
      omega
  · exact h

/-- Whatever a callback does is a step of the model. -/
theorem LoopInv.may (h : LoopInv t s) (hbody : s.walk.inBody = true) :
    (∀ fetchId, (loopStep s (.removeFetch fetchId)).isSome) ∧
      ∀ m callback before i buckets,
        (loopStep s (.addFetch m callback before i buckets)).isSome := by
  refine ⟨fun fetchId => ?_, fun m callback before i buckets => ?_⟩
  · rcases hfind : s.find fetchId with - | e
    · simp [loopStep, LoopAction.change, hfind, hbody]
    · have hmem := (find_eq_some hfind).1
      simp only [loopStep, LoopAction.change, hfind, Option.map_some, Option.isSome_map, walkStep]
      rw [if_pos ⟨hbody, hmem⟩]
      rfl
  · have hfresh : s.walk.Fresh (s.newEntry m callback) := by
      -- its number has not been given before
      have hno : ¬ s.walk.Known (s.newEntry m callback) := fun hk =>
        lt_irrefl s.registered (h.old _ hk)
      exact ⟨fun h => hno (.inl h), fun h => hno (.inr (.inl h)), fun h => hno (.inr (.inr h))⟩
    rcases hfind : s.find (s.newEntry m callback).fetchId with - | e
    · simp only [loopStep, LoopAction.change, hfind, Option.isSome_map, walkStep]
      rw [if_pos ⟨hbody, hfresh⟩]
      rfl
    · have hmem := (find_eq_some hfind).1
      simp only [loopStep, LoopAction.change, hfind, Option.isSome_map, walkStep]
      rw [if_pos ⟨hbody, hmem, hfresh⟩]
      rfl

end

/-! ### Main result -/

/-- **The loop of `stop()`** has a valid position at every step, goes on until
it is done, and has then called each fetch it began with once, those aside
that were removed before their turn, in every run in which no callback removes
the fetch it is called for and no new fetch makes the table rehash.  There are
no more turns than fetches in the beginning and fetches added.  And a step
that does not meet this condition loses the position. -/
theorem stop_loop_tolerates {t : FetchTable} {fetchCount : ℕ} {as : List LoopAction} {s : StopLoop}
    (h : stopLoopMachine.Run KeepsPosition (StopLoop.start t fetchCount) as s) :
    s.walk.valid = true ∧
      (s.walk.Done ∨ (stopLoopMachine.step s .call).isSome ∨
        ∀ threw, (stopLoopMachine.step s (.back threw)).isSome) ∧
      (s.walk.Done → ∀ e ∈ t.entries, s.walk.visited.count e = 1 ∨
        (e ∈ s.walk.removed ∧ s.walk.visited.count e = 0)) ∧
      s.walk.visited.length + t.registered ≤ t.entries.length + s.registered ∧
      ∀ a u, stopLoopMachine.step s a = some u → (u.walk.valid = true ↔ KeepsPosition s a) := by
  have hinv : LoopInv t s := h.invariant (loopInv_start t fetchCount) fun _ _ _ ht hG hstep =>
    ht.step hG hstep
  refine ⟨hinv.walk.valid, ?_, fun hdone e he => hinv.walk.visited_once hdone he, ?_, ?_⟩
  · refine hinv.walk.goes_on.imp_right fun h => h.imp (fun h => ?_) fun h threw => ?_
    · exact (Option.isSome_map ..).trans h
    · exact (Option.isSome_map ..).trans h
  · have hle := hinv.walk.length_visited_le
    have hadded := hinv.added
    omega
  · intro a u hstep
    rcases loopStep_eq_some hstep with ⟨c, hc, hwalk, -⟩ | ⟨hnone, rfl⟩
    · rw [keepsPosition_iff hinv.keys hc]
      exact walkStep_valid_iff hinv.walk.valid hwalk
    · -- only the removal of a fetch that is not there leaves the table alone
      refine ⟨fun _ => ?_, fun _ => hinv.walk.valid⟩
      cases a with
      | removeFetch fetchId =>
          have hfind : u.find fetchId = none := Option.map_eq_none_iff.mp hnone
          intro e he hid
          have hmem : e ∈ u.walk.elements := List.mem_append_right _ (List.mem_of_mem_head? he)
          exact List.find?_eq_none.mp hfind e hmem (by simpa using hid)
      | addFetch m callback before i buckets =>
          simp only [LoopAction.change] at hnone
          split at hnone <;> cases hnone
      | _ => trivial

/-! ### Two fetches -/

/-- Two fetches, and room for a third. -/
def twoFetches : FetchTable where
  entries := [⟨0, 1, ⟨some 0, {}⟩⟩, ⟨1, 2, ⟨some 1, {}⟩⟩]
  buckets := 3
  registered := 2
  serials := by decide
  keys := by decide
  room := by decide
  old := by decide

instance (s : StopLoop) : ∀ a, Decidable (KeepsPosition s a)
  | .removeFetch fetchId =>
      inferInstanceAs (Decidable (∀ e ∈ s.walk.rest.head?, e.fetchId ≠ fetchId))
  | .addFetch m callback _ _ _ =>
      inferInstanceAs (Decidable (s.find (s.newEntry m callback).fetchId = none →
        s.walk.elements.length + 1 ≤ s.walk.buckets))
  | .call | .back _ => .isTrue trivial

/-- The first callback adds a fetch and throws, the second one removes the
first fetch. -/
def addAndRemove : List LoopAction :=
  [.call, .addFetch {} (some 2) true 0 0, .back true, .call, .removeFetch 1, .back false]

theorem stop_loop_tolerates_two :
    ∃ s, stopLoopMachine.Run KeepsPosition (StopLoop.start twoFetches 2) addAndRemove s ∧
      s.walk.Done ∧ s.walk.valid = true ∧
      s.walk.visited.length + 2 ≤ twoFetches.entries.length + s.registered := by
  have h : ∃ s, stopLoopMachine.evalIn KeepsPosition (StopLoop.start twoFetches 2) addAndRemove
      = some s ∧ s.walk.inBody = false ∧ s.walk.rest = [] := ⟨_, rfl, rfl, rfl⟩
  obtain ⟨s, hrun, hbody, hrest⟩ := h
  have hrun := Machine.Run.of_evalIn hrun
  obtain ⟨hvalid, -, -, hlength, -⟩ := stop_loop_tolerates hrun
  exact ⟨s, hrun, ⟨hbody, hrest⟩, hvalid, hlength⟩

/-- **A callback that removes its own fetch** leaves the loop with a position
that must not be used, and the loop does not get on. -/
theorem own_removal_loses_position :
    ∃ s, stopLoopMachine.Run Machine.Always (StopLoop.start twoFetches 2)
        [.call, .removeFetch 1] s ∧
      s.walk.valid = false ∧ ¬ s.walk.Done ∧ stopLoopMachine.step s .call = none ∧
      ∀ threw, stopLoopMachine.step s (.back threw) = none := by
  have h : ∃ s, stopLoopMachine.eval (StopLoop.start twoFetches 2) [.call, .removeFetch 1]
        = some s ∧ s.walk.valid = false ∧ s.walk.inBody = true ∧
      stopLoopMachine.step s .call = none ∧
      ∀ threw, stopLoopMachine.step s (.back threw) = none :=
    ⟨_, rfl, rfl, rfl, rfl, fun _ => rfl⟩
  obtain ⟨s, hrun, hvalid, hbody, hcall, hback⟩ := h
  refine ⟨s, Machine.Run.of_eval hrun, hvalid, fun hdone => ?_, hcall, hback⟩
  exact Bool.false_ne_true (hdone.1.symm.trans hbody)

end JetPeer
