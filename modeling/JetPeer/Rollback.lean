/-
JetPeer/Rollback.lean

An add that failed.

Each of the six ways to add writes the entry before the outcome is known, over
whatever stands under the key, and each error branch erases the key.  So the
registries are as they were before if and only if nothing stood there.

What the registries of a peer hold is the replay of its own events (`replay`),
on whichever threads they happen and whatever the other peers do.  From the
call on the only events of the peer that matter are the answer to the add and,
where the request is cancelled by a `stop()` of the peer itself, the clearing
of its registries (`NothingElse`).
-/
import JetPeer.Process

namespace JetPeer

open Runs

/-! ### Erasing what was written -/

section

variable {α β : Type} [DecidableEq α] {m : AList fun _ : α => β} {a : α} {b : β}

theorem erase_insert (h : a ∉ m) : (m.insert a b).erase a = m := by
  refine AList.ext ?_
  show (m.insert a b).entries.kerase a = m.entries
  rw [AList.entries_insert_of_notMem h]
  exact List.kerase_cons_eq rfl

theorem erase_eq_self (h : a ∉ m) : m.erase a = m := by
  refine AList.ext ?_
  show m.entries.kerase a = m.entries
  exact List.kerase_of_notMem_keys fun hk => h (AList.mem_keys.mpr hk)

omit [DecidableEq α] in
theorem eq_empty (h : ∀ a, a ∉ m) : m = ∅ := by
  refine AList.ext (List.eq_nil_iff_forall_not_mem.mpr fun e he => h e.1 ?_)
  exact AList.mem_keys.mpr (List.mem_map_of_mem he)

end

namespace Tables

variable {t : Tables} {item : Item} {part : Part} {r : Registration}

/-- Erasing undoes an add that wrote over nothing. -/
theorem discard_add (h : ¬ t.Has r.item) : (t.add r).discard r.item = t := by
  rcases r with ⟨k, path, callback⟩ | ⟨fetchId, f⟩
  · cases k
    · exact congrArg (fun m => { t with stateCallbacks := m }) (erase_insert h)
    · exact congrArg (fun m => { t with methodCallbacks := m }) (erase_insert h)
  · exact congrArg (fun m => { t with fetchers := m }) (erase_insert h)

theorem discard_eq_self (h : ¬ t.Has item) : t.discard item = t := by
  rcases item with ⟨k, path⟩ | fetchId
  · cases k
    · exact congrArg (fun m => { t with stateCallbacks := m }) (erase_eq_self h)
    · exact congrArg (fun m => { t with methodCallbacks := m }) (erase_eq_self h)
  · exact congrArg (fun m => { t with fetchers := m }) (erase_eq_self h)

theorem discard_discard : (t.discard item).discard item = t.discard item :=
  discard_eq_self fun h => (has_discard.mp h).1 rfl

theorem discard_clear : (t.clear part).discard item = (t.discard item).clear part := by
  rcases item with ⟨k, path⟩ | fetchId
  · cases k <;> cases part <;> rfl
  · cases part <;> rfl

/-- A registry without entries is not changed by clearing it. -/
theorem clear_eq_self (h : ∀ i : Item, i.part = part → ¬ t.Has i) : t.clear part = t := by
  cases part
  · exact congrArg (fun m => { t with stateCallbacks := m })
      (eq_empty fun path => h (.served .state path) rfl).symm
  · exact congrArg (fun m => { t with methodCallbacks := m })
      (eq_empty fun path => h (.served .method path) rfl).symm
  · exact congrArg (fun m => { t with fetchers := m })
      (eq_empty fun fetchId => h (.fetch fetchId) rfl).symm

theorem discard_foldr_clear (parts : List Part) :
    (parts.foldr (fun part t => t.clear part) t).discard item =
      parts.foldr (fun part t => t.clear part) (t.discard item) := by
  induction parts with
  | nil => rfl
  | cons part parts ih => rw [List.foldr_cons, discard_clear, ih, List.foldr_cons]

theorem has_foldr_clear (parts : List Part) :
    (parts.foldr (fun part t => t.clear part) t).Has item ↔ item.part ∉ parts ∧ t.Has item := by
  induction parts with
  | nil => simp
  | cons part parts ih => rw [List.foldr_cons, has_clear, ih, List.mem_cons, not_or, and_assoc]

/-- Writing, clearing and erasing leave what was there, if and only if nothing
stood under the key and nothing in the cleared registries. -/
theorem foldr_clear_discard_add_eq_iff (parts : List Part) :
    parts.foldr (fun part t => t.clear part) ((t.add r).discard r.item) = t ↔
      ¬ t.Has r.item ∧ ∀ i : Item, i.part ∈ parts → ¬ t.Has i := by
  constructor
  · intro h
    -- what is there in the end was there before and has survived both
    have hhas : ∀ i : Item, t.Has i → i.part ∉ parts ∧ i ≠ r.item := by
      intro i hi
      rw [← h, has_foldr_clear, has_discard] at hi
      exact ⟨hi.1, hi.2.1⟩
    exact ⟨fun hi => (hhas _ hi).2 rfl, fun i hpart hi => (hhas i hi).1 hpart⟩
  · rintro ⟨hitem, hparts⟩
    rw [discard_add hitem]
    induction parts with
    | nil => rfl
    | cons part parts ih =>
        rw [List.foldr_cons, ih fun i hi => hparts i (List.mem_cons_of_mem _ hi)]
        exact clear_eq_self fun i hi => hparts i (hi ▸ List.mem_cons_self)

end Tables

/-! ### The registries as a replay -/

/-- The tables of `p` after these events, the newest first. -/
def replay (p : ℕ) (t : Tables) : List (ℕ × Event) → Tables
  | [] => t
  | (q, e) :: es => if q = p then e.onTables (replay p t es) else replay p t es

/-- From `sh` to `sh'` only events with `G` happened, and the tables are their
replay. -/
def Since (G : ℕ × Event → Prop) (sh sh' : Shared) : Prop :=
  ∃ es, sh'.log = es ++ sh.log ∧ (∀ pe ∈ es, G pe) ∧
    ∀ p, (sh'.peers p).tables = replay p (sh.peers p).tables es

section

variable {G : ℕ × Event → Prop} {sh sh' : Shared} {s t : Process}

theorem Since.refl : Since G sh sh := ⟨[], rfl, by simp, fun _ => rfl⟩

theorem Since.apply {pe : ℕ × Event} (h : Since G sh sh') (hG : G pe) :
    Since G sh (sh'.apply pe) := by
  obtain ⟨es, hlog, hes, htables⟩ := h
  refine ⟨pe :: es, ?_, List.forall_mem_cons.mpr ⟨hG, hes⟩, fun q => ?_⟩
  · rw [List.cons_append, ← hlog]
    rfl
  · rw [Shared.tables_apply, htables q, replay]
    by_cases hq : q = pe.1
    · rw [if_pos hq, if_pos hq.symm]
    · rw [if_neg hq, if_neg (Ne.symm hq)]

theorem Since.applyAll {es : List (ℕ × Event)} (h : Since G sh sh')
    (hes : Along (fun _ => G) sh' es) : Since G sh (sh'.applyAll es) := by
  induction es generalizing sh' with
  | nil => exact h
  | cons pe es ih => exact ih (h.apply hes.1) hes.2

/-- The tables are replayed along every run. -/
theorem since_run {as : List (ℕ × Action)}
    (h : processMachine.Run (Meets fun _ _ => G) s as t) : Since G s.shared t.shared := by
  refine h.invariant (I := fun t => Since G s.shared t.shared) Since.refl ?_
  rintro t ⟨tid, a⟩ u ht hG hstep
  obtain ⟨stack, r, hstack, hr, rfl⟩ := processMachine_step_eq_some.mp hstep
  exact ht.applyAll (hG stack hstack r hr)

end

/-! ### Between the call and the answer -/

/-- What a call puts into the registries of which peer. -/
def Call.registration (sh : Shared) : Call → Option (ℕ × Registration)
  | .add p kind path _ _ callback _ => some (p, .served kind path callback)
  | .addFetch p m callback _ => some (p, .fetch sh.nextFetchId ⟨callback, m⟩)
  | _ => none

/-- No other operation changes the registries of `p`. -/
def NothingElse (p : ℕ) (item : Item) (serial : ℕ) : ℕ × Event → Prop
  | (q, .registered ..) => q ≠ p
  | (q, .removed _) => q ≠ p
  | (q, .answered _ i n _) => q = p → i = item ∧ n = serial
  | _ => True

instance (p : ℕ) (item : Item) (serial : ℕ) : ∀ pe, Decidable (NothingElse p item serial pe)
  | (q, .registered ..) => inferInstanceAs (Decidable (q ≠ p))
  | (q, .removed _) => inferInstanceAs (Decidable (q ≠ p))
  | (q, .answered _ i n _) => inferInstanceAs (Decidable (q = p → i = item ∧ n = serial))
  | (_, .cleared _) | (_, .issued) | (_, .opened ..) | (_, .installed ..) | (_, .completed _)
  | (_, .cancelled) | (_, .destroyed _) | (_, .fulfilled ..) | (_, .connected)
  | (_, .disconnected) | (_, .arrived _) | (_, .handled _) | (_, .left) | (_, .called ..)
  | (_, .sent _) => .isTrue trivial

/-- The error to the add has been dealt with. -/
def Failed (p : ℕ) (item : Item) (serial : ℕ) (es : List (ℕ × Event)) : Prop :=
  ∃ cause result, (p, .answered cause item serial result) ∈ es ∧ isError result = true

/-- The registries of `p` cleared by these events. -/
def clearedParts (p : ℕ) : List (ℕ × Event) → List Part
  | [] => []
  | (q, .cleared part) :: es => if q = p then part :: clearedParts p es else clearedParts p es
  | _ :: es => clearedParts p es

section

variable {p : ℕ} {item : Item} {serial : ℕ} {es : List (ℕ × Event)} {t : Tables}

theorem mem_clearedParts {part : Part} : part ∈ clearedParts p es ↔ (p, .cleared part) ∈ es := by
  induction es with
  | nil => simp [clearedParts]
  | cons pe es ih =>
      rcases pe with ⟨q, e⟩
      cases e with
      | cleared part' =>
          by_cases hq : q = p
          · subst hq
            simp [clearedParts, ih]
          · have hp : p ≠ q := Ne.symm hq
            simp [clearedParts, hq, hp, ih]
      | _ => simp [clearedParts, ih]

/-- An event of another peer, or one that leaves the registries alone. -/
theorem failed_cons {pe : ℕ × Event}
    (h : ∀ cause n result, pe = (p, .answered cause item n result) →
      isError result = true → False) :
    Failed p item serial (pe :: es) ↔ Failed p item serial es := by
  constructor
  · rintro ⟨cause, result, hmem, herr⟩
    rcases List.mem_cons.mp hmem with hpe | hmem
    · exact (h cause serial result hpe.symm herr).elim
    · exact ⟨cause, result, hmem, herr⟩
  · rintro ⟨cause, result, hmem, herr⟩
    exact ⟨cause, result, List.mem_cons_of_mem _ hmem, herr⟩

/-- The key is erased once the error has been dealt with, and all else comes
from the clearing. -/
theorem replay_cases (h : ∀ pe ∈ es, NothingElse p item serial pe) :
    (Failed p item serial es ∧ replay p t es =
        (clearedParts p es).foldr (fun part t => t.clear part) (t.discard item)) ∨
      (¬ Failed p item serial es ∧ replay p t es =
        (clearedParts p es).foldr (fun part t => t.clear part) t) := by
  induction es with
  | nil => exact .inr ⟨by simp [Failed], rfl⟩
  | cons pe es ih =>
      obtain ⟨hpe, hes⟩ := List.forall_mem_cons.mp h
      have ih := ih hes
      rcases pe with ⟨q, e⟩
      by_cases hq : q = p
      · subst hq
        cases e with
        -- no other operation of the peer
        | registered => exact absurd rfl hpe
        | removed => exact absurd rfl hpe
        | answered cause i n result =>
            obtain ⟨rfl, rfl⟩ := hpe rfl
            rw [replay, if_pos rfl]
            show (_ ∧ Tables.rollBack result i (replay q t es) = _) ∨
              (_ ∧ Tables.rollBack result i (replay q t es) = _)
            rw [Tables.rollBack_eq]
            by_cases herr : isError result = true
            · -- erased, if not before
              rw [if_pos herr]
              refine .inl ⟨⟨cause, result, List.mem_cons_self, herr⟩, ?_⟩
              rcases ih with ⟨-, ih⟩ | ⟨-, ih⟩
              · rw [ih, Tables.discard_foldr_clear, Tables.discard_discard]
                rfl
              · rw [ih, Tables.discard_foldr_clear]
                rfl
            · rw [if_neg herr, failed_cons]
              · exact ih
              · rintro _ _ _ ⟨⟩ h
                exact herr h
        | cleared part =>
            have hparts : clearedParts q ((q, .cleared part) :: es) = part :: clearedParts q es :=
              if_pos rfl
            rw [failed_cons (by rintro _ _ _ ⟨⟩), replay, if_pos rfl, hparts, List.foldr_cons,
              List.foldr_cons]
            exact ih.imp (fun h => ⟨h.1, congrArg (Tables.clear · part) h.2⟩)
              fun h => ⟨h.1, congrArg (Tables.clear · part) h.2⟩
        | _ =>
            rw [failed_cons (by rintro _ _ _ ⟨⟩), replay, if_pos rfl]
            exact ih
      · have hparts : clearedParts p ((q, e) :: es) = clearedParts p es := by
          cases e <;> first | rfl | exact if_neg hq
        rw [failed_cons, replay, if_neg hq, hparts]
        · exact ih
        · rintro _ _ _ ⟨⟩
          exact absurd rfl hq

end

/-! ### What a failed add leaves -/

section

variable {s t u : Process} {tid p : ℕ} {c : Call} {r : Registration} {as : List (ℕ × Action)}
  {es : List (ℕ × Event)}

/-- The call writes its entry at once. -/
theorem tables_call (hc : c.registration s.shared = some (p, r))
    (hcall : processMachine.step s (tid, .call c) = some t) :
    (t.shared.peers p).tables = (s.shared.peers p).tables.add r := by
  obtain ⟨stack, e, -, he, rfl⟩ := processMachine_step_eq_some.mp hcall
  obtain ⟨-, he⟩ := Option.ite_none_right_eq_some.mp he
  obtain rfl := Option.some.inj he
  have htables : ∀ (e : Event) (sh : Shared), e = .issued →
      ((sh.apply (p, e)).peers p).tables = (sh.peers p).tables := by
    rintro e sh rfl
    rw [Shared.peers_apply_self]
    rfl
  cases c with
  | add q kind path value params callback reply =>
      obtain ⟨rfl, rfl⟩ := Prod.mk.inj (Option.some.inj hc)
      refine (htables .issued _ rfl).trans ?_
      rw [Shared.peers_apply_self]
      rfl
  | addFetch q m callback reply =>
      obtain ⟨rfl, rfl⟩ := Prod.mk.inj (Option.some.inj hc)
      refine (htables .issued _ rfl).trans ?_
      rw [Shared.peers_apply_self]
      rfl
  | _ => cases hc

/-- **A failed add leaves the peer as it was** if and only if there was no
entry under its key; and, where the `stop()` of the peer itself cancelled it,
none in the registries that `stop()` clears. -/
theorem failed_add_restores_iff (hc : c.registration s.shared = some (p, r))
    (hcall : processMachine.step s (tid, .call c) = some t)
    (hrun : processMachine.Run
      (Meets fun _ _ => NothingElse p r.item s.shared.issuers.length) t as u)
    (hes : u.shared.log = es ++ t.shared.log)
    (hfailed : Failed p r.item s.shared.issuers.length es) :
    (u.shared.peers p).tables = (s.shared.peers p).tables ↔
      ¬ (s.shared.peers p).tables.Has r.item ∧
        ∀ i : Item, (p, .cleared i.part) ∈ es → ¬ (s.shared.peers p).tables.Has i := by
  obtain ⟨es', hlog, hG, htables⟩ := since_run hrun
  -- the log since the call is the list that is replayed
  obtain rfl : es = es' := List.append_cancel_right (hes.symm.trans hlog)
  rw [htables p, tables_call hc hcall]
  rcases replay_cases hG with ⟨-, h⟩ | ⟨hnot, -⟩
  · rw [h, Tables.foldr_clear_discard_add_eq_iff]
    simp only [mem_clearedParts]
  · exact absurd hfailed hnot

end

/-! ### A send that fails -/

/-- A state is added with this callback. -/
def addStateWith (callback : Callback) (reply : Reply) : Call :=
  .add 0 .state "p" .null .null (some callback) reply

/-- The send of the request throws, and the event loop runs the notifier. -/
def sendFails : List (ℕ × Action) :=
  [(0, .run .go), (0, .run (.threw ⟨-1, "not connected"⟩)), (0, .run .go), (0, .notifier 1 1),
    (0, .run .go)]

theorem failed_add_restores_iff_new : ∃ t u,
    processMachine.step (Threads.idle {} 1) (0, .call (addStateWith 1 (.callback 7))) = some t ∧
      processMachine.Run (Meets fun _ _ => NothingElse 0 (.served .state "p") 0) t sendFails u ∧
      (u.shared.peers 0).tables = {} := by
  have h : ∃ t u es,
      processMachine.step (Threads.idle {} 1) (0, .call (addStateWith 1 (.callback 7))) = some t ∧
      processMachine.evalIn (Meets fun _ _ => NothingElse 0 (.served .state "p") 0) t sendFails
        = some u ∧ u.shared.log = es ++ t.shared.log ∧
      Failed 0 (.served .state "p") 0 es ∧ ∀ part, (0, .cleared part) ∉ es :=
    ⟨_, _, [_, _, _, _], rfl, rfl, rfl, ⟨0, _, List.mem_cons_self, rfl⟩, by simp⟩
  obtain ⟨t, u, es, hcall, hrun, hes, hfailed, hcleared⟩ := h
  have hrun := Machine.Run.of_evalIn hrun
  refine ⟨t, u, hcall, hrun, ?_⟩
  exact (failed_add_restores_iff (c := addStateWith 1 (.callback 7)) rfl hcall hrun hes hfailed).mpr
    ⟨AList.notMem_empty _, fun i hi => absurd hi (hcleared _)⟩

/-- **A path already served is served no more** after a failed add, though
nothing else has happened. -/
theorem failed_add_drops_served_path : ∃ s t u es,
    processMachine.Run Machine.Always (Threads.idle {} 1)
        [(0, .call (addStateWith 0 .ignore)), (0, .run (.threw ⟨-1, "not connected"⟩))] s ∧
      (s.shared.peers 0).tables.stateCallbacks.lookup "p" = some (some 0) ∧
      processMachine.step s (0, .call (addStateWith 1 (.callback 7))) = some t ∧
      processMachine.Run Machine.Always t sendFails u ∧ u.shared.log = es ++ t.shared.log ∧
      (∀ pe ∈ es, NothingElse 0 (.served .state "p") 1 pe) ∧
      Failed 0 (.served .state "p") 1 es ∧
      (u.shared.peers 0).tables.stateCallbacks.lookup "p" = none := by
  have h : ∃ s t u es, processMachine.eval (Threads.idle {} 1)
        [(0, .call (addStateWith 0 .ignore)), (0, .run (.threw ⟨-1, "not connected"⟩))] = some s ∧
      (s.shared.peers 0).tables.stateCallbacks.lookup "p" = some (some 0) ∧
      processMachine.step s (0, .call (addStateWith 1 (.callback 7))) = some t ∧
      processMachine.eval t sendFails = some u ∧ u.shared.log = es ++ t.shared.log ∧
      (∀ pe ∈ es, NothingElse 0 (.served .state "p") 1 pe) ∧
      Failed 0 (.served .state "p") 1 es ∧
      (u.shared.peers 0).tables.stateCallbacks.lookup "p" = none :=
    ⟨_, _, _, [_, _, _, _], rfl, rfl, rfl, rfl, rfl, by simp [NothingElse]; rfl,
      ⟨0, _, List.mem_cons_self, rfl⟩, rfl⟩
  obtain ⟨s, t, u, es, hserve, hserved, hcall, hrun, hrest⟩ := h
  exact ⟨s, t, u, es, Machine.Run.of_eval hserve, hserved, hcall, Machine.Run.of_eval hrun, hrest⟩

end JetPeer
