/-
JetPeer/Notifications.lean

The delivery of fetch notifications.

Three things are said of every run on telegrams of responses and
notifications.  A peer handles its messages one by one in the order they
arrived (`order`).  Each turn calls the fetch callbacks that are due and no
others: that of the fetch a notification names, if the fetch is in the table
(`due`).  And a fetch that has been retired, by a removal or by the error to
its own add, is never called again (`QuietAfter`), because it is out of the
table for good: ids are handed out once (`fetchIdOf_inj`), and only an
addition puts anything into the table.

Whether the response to a fetch request has arrived does not matter anywhere:
the fetch is in the table before its request is sent.
-/
import JetPeer.Process

namespace JetPeer

open Runs

/-! ### Messages -/

/-- The fetch a notification is for, with its params. -/
def notification (m : Json) : Option (FetchId × Json) :=
  match m, m.member Jsonrpc.method with
  | .object _, .int n =>
      if minInt ≤ n ∧ n ≤ maxInt then some (n, m.member Jsonrpc.params) else none
  | _, _ => none

/-- A response whose id can be read. -/
def isResponse (m : Json) : Bool :=
  match m, m.member Jsonrpc.method with
  | .object _, .null => (responseId m).toOption.isSome
  | _, _ => false

/-- A response or a notification. -/
def FetchMessage (m : Json) : Prop := (notification m).isSome ∨ isResponse m = true

instance (m : Json) : Decidable (FetchMessage m) := inferInstanceAs (Decidable (_ ∨ _))

section

variable {t : Tables} {m : Json} {fetchId : FetchId} {params : Json}

theorem notification_eq_some (h : notification m = some (fetchId, params)) :
    (∃ ms, m = .object ms) ∧ m.member Jsonrpc.method = .int fetchId ∧
      (minInt ≤ fetchId ∧ fetchId ≤ maxInt) ∧ params = m.member Jsonrpc.params := by
  unfold notification at h
  split at h
  next ms n hn =>
    split_ifs at h with hrange
    cases h
    exact ⟨⟨ms, rfl⟩, hn, hrange, rfl⟩
  next => cases h

/-- What a notification comes to. -/
theorem target_notification (h : notification m = some (fetchId, params)) :
    target t m = match t.fetchers.lookup fetchId with
      | some f => .ok (.fetch fetchId f params)
      | none => .ok .nothing := by
  obtain ⟨hobject, hmethod, hrange, rfl⟩ := notification_eq_some h
  have hint : (Json.int fetchId).asInt = .ok fetchId := if_pos hrange
  rw [target_eq (.inr hobject), hmethod]
  show fetchTarget t m (.int fetchId) = _
  rw [fetchTarget, hint]
  show (match t.fetchers.lookup fetchId with
    | some f => (m.at Jsonrpc.params).map (Target.fetch fetchId f)
    | none => .ok .nothing) = _
  rw [at_eq_ok (.inr hobject)]
  rfl

/-- A response is for the request with its id. -/
theorem target_response (h : isResponse m = true) : ∃ id, target t m = .ok (.response id) := by
  unfold isResponse at h
  split at h
  next ms hmethod =>
    rcases hid : responseId (.object ms) with e | id
    · rw [hid] at h
      cases h
    · refine ⟨id, ?_⟩
      rw [target_eq (.inr ⟨ms, rfl⟩), hmethod]
      show (responseId (.object ms)).map Target.response = _
      rw [hid]
      rfl
  next => cases h

/-- No accessor throws on a response or a notification. -/
theorem FetchMessage.target_ne_error (h : FetchMessage m) {e : LogicError} :
    target t m ≠ .error e := by
  rcases h with h | h
  · obtain ⟨⟨fetchId, params⟩, h⟩ := Option.isSome_iff_exists.mp h
    rw [target_notification h]
    split <;> simp
  · obtain ⟨id, h⟩ := target_response (t := t) h
    rw [h]
    simp

end

/-! ### Ids of fetches -/

/-- The id of the `k`-th fetch of the process. -/
def fetchIdOf (k : ℕ) : FetchId := (BitVec.ofNat 32 k).toInt

theorem fetchIdOf_inj {j k : ℕ} (hj : j < 2 ^ 32) (hk : k < 2 ^ 32)
    (h : fetchIdOf j = fetchIdOf k) : j = k := by
  have hbv : BitVec.ofNat 32 j = BitVec.ofNat 32 k := BitVec.toInt_inj.mp h
  have hnat := congrArg BitVec.toNat hbv
  rwa [BitVec.toNat_ofNat, BitVec.toNat_ofNat, Nat.mod_eq_of_lt hj, Nat.mod_eq_of_lt hk] at hnat

/-! ### What the log says -/

/-- The messages that have arrived at `p`, the oldest first. -/
def arrivedAt (p : ℕ) : List (ℕ × Event) → List Json
  | [] => []
  | (q, .arrived ms) :: log => if q = p then arrivedAt p log ++ ms else arrivedAt p log
  | _ :: log => arrivedAt p log

/-- The messages `p` has handled, the oldest first. -/
def handledBy (p : ℕ) : List (ℕ × Event) → List Json
  | [] => []
  | (q, .handled m) :: log => if q = p then handledBy p log ++ [m] else handledBy p log
  | _ :: log => handledBy p log

/-- The fetch an event retires. -/
def Event.retires : Event → Option FetchId
  | .removed (.fetch fetchId) => some fetchId
  | .answered _ (.fetch fetchId) _ result => if isError result then some fetchId else none
  | _ => none

/-- The fetch an event adds. -/
def Event.adds : Event → Option FetchId
  | .registered (.fetch fetchId _) _ _ => some fetchId
  | _ => none

/-- `fetchId` has been handed out to `p`. -/
def Created (p : ℕ) (fetchId : FetchId) (log : List (ℕ × Event)) : Prop :=
  ∃ pe ∈ log, pe.1 = p ∧ pe.2.adds = some fetchId

instance (p : ℕ) (fetchId : FetchId) (log : List (ℕ × Event)) :
    Decidable (Created p fetchId log) :=
  inferInstanceAs (Decidable (∃ pe ∈ log, pe.1 = p ∧ pe.2.adds = some fetchId))

/-- A fetch of `p` has been retired. -/
def Retired (p : ℕ) (fetchId : FetchId) : List (ℕ × Event) → Prop
  | [] => False
  | (q, e) :: log =>
      (q = p ∧ e.retires = some fetchId ∧ Created p fetchId log) ∨ Retired p fetchId log

instance (p : ℕ) (fetchId : FetchId) : ∀ log, Decidable (Retired p fetchId log)
  | [] => .isFalse id
  | (q, e) :: log =>
      have := instDecidableRetired p fetchId log
      inferInstanceAs (Decidable ((q = p ∧ e.retires = some fetchId ∧ Created p fetchId log) ∨ _))

/-- No retired fetch is called. -/
def QuietAfter : List (ℕ × Event) → Prop
  | [] => True
  | (p, .called fetchId _ _ _) :: log => ¬ Retired p fetchId log ∧ QuietAfter log
  | _ :: log => QuietAfter log

/-- A call of a fetch callback. -/
structure Delivery where
  peer : ℕ
  fetchId : FetchId
  callback : Callback
  params : Json
  status : Int

/-- The call of one fetch, if it has a callback and is in the table. -/
def dueCall (sh : Shared) (p : ℕ) (fetchId : FetchId) (params : Json) (status : Int) :
    List Delivery :=
  (((sh.peers p).tables.fetchers.lookup fetchId).bind Fetcher.callback).toList.map fun cb =>
    ⟨p, fetchId, cb, params, status⟩

/-- The call due for a message. -/
def dueFor (sh : Shared) (p : ℕ) (m : Json) : List Delivery :=
  (notification m).toList.flatMap fun n => dueCall sh p n.1 n.2 0

/-- The calls due in a step: `receive` has a message at hand, or `stop` comes
to the next fetch. -/
def due (s : Process) (tid : ℕ) (a : Action) : List Delivery :=
  match s.callStacks[tid]?, a with
  | some (.receive p :: _), .run .go =>
      match (s.shared.peers p).telegram with
      | some (m :: _) => dueFor s.shared p m
      | _ => []
  | some (.notify p _ _ :: _), .run (.next fetchId) => dueCall s.shared p fetchId .null (-1)
  | _, _ => []

/-- Telegrams are made of responses and notifications, and fewer than 2^32
fetches are created. -/
def FetchDomain (_ : Process) (sh : Shared) : ℕ × Event → Prop
  | (_, .arrived ms) => ∀ m ∈ ms, FetchMessage m
  | (_, .registered (.fetch _ _) _ _) => sh.fetchCount + 1 < 2 ^ 32
  | _ => True

instance (s : Process) (sh : Shared) : ∀ pe, Decidable (FetchDomain s sh pe)
  | (_, .arrived ms) => inferInstanceAs (Decidable (∀ m ∈ ms, FetchMessage m))
  | (_, .registered (.fetch ..) ..) => inferInstanceAs (Decidable (sh.fetchCount + 1 < 2 ^ 32))
  | (_, .registered (.served ..) ..) | (_, .removed _) | (_, .answered ..) | (_, .cleared _)
  | (_, .issued) | (_, .opened ..) | (_, .installed ..) | (_, .completed _) | (_, .cancelled)
  | (_, .destroyed _) | (_, .fulfilled ..) | (_, .connected) | (_, .disconnected)
  | (_, .handled _) | (_, .left) | (_, .called ..) | (_, .sent _) => .isTrue trivial

structure FetchInv (sh : Shared) : Prop where
  order : ∀ p, arrivedAt p sh.log = handledBy p sh.log ++ (sh.peers p).telegram.getD []
  messages : ∀ p, ∀ m ∈ arrivedAt p sh.log, FetchMessage m
  count : sh.fetchCount < 2 ^ 32
  created : ∀ p fetchId, Created p fetchId sh.log → ∃ k ≤ sh.fetchCount, fetchId = fetchIdOf k
  retired : ∀ p fetchId, Retired p fetchId sh.log → fetchId ∉ (sh.peers p).tables.fetchers
  quiet : QuietAfter sh.log

/-! ### One event -/

section

variable {s : Process} {stack : List Frame} {sh : Shared} {p q : ℕ} {e : Event}
  {fetchId : FetchId} {log : List (ℕ × Event)}

theorem mem_handledBy {m : Json} (h : (p, .handled m) ∈ log) : m ∈ handledBy p log := by
  induction log with
  | nil => exact absurd h List.not_mem_nil
  | cons pe log ih =>
      obtain ⟨q, e⟩ := pe
      rcases List.mem_cons.mp h with heq | h
      · cases heq
        rw [handledBy, if_pos rfl]
        exact List.mem_append_right _ (List.mem_singleton_self m)
      · have ih := ih h
        cases e with
        | handled m' =>
            unfold handledBy
            split_ifs
            · exact List.mem_append_left _ ih
            · exact ih
        | _ => exact ih

theorem Retired.created (h : Retired p fetchId log) : Created p fetchId log := by
  induction log with
  | nil => exact h.elim
  | cons pe log ih =>
      obtain ⟨q, e⟩ := pe
      have hold : Created p fetchId log := by
        rcases h with ⟨-, -, h⟩ | h
        · exact h
        · exact ih h
      obtain ⟨pe, hmem, hadds⟩ := hold
      exact ⟨pe, List.mem_cons_of_mem _ hmem, hadds⟩

/-- Messages arrive while none is left, and are handled from the front. -/
theorem order_apply (h : FetchInv sh) (hproper : Proper stack sh (p, e)) (q : ℕ) :
    arrivedAt q (sh.apply (p, e)).log =
      handledBy q (sh.apply (p, e)).log ++ ((sh.apply (p, e)).peers q).telegram.getD [] := by
  rw [Shared.telegram_apply, Shared.log_apply]
  have ho := h.order q
  by_cases hq : q = p
  · subst hq
    rw [if_pos rfl]
    cases e with
    | arrived ms =>
        have hnone : (sh.peers q).telegram = none := hproper
        rw [hnone] at ho
        rw [arrivedAt, if_pos rfl, ho]
        simp [handledBy, Event.onTelegram]
    | handled m =>
        obtain ⟨ms, hms⟩ := hproper
        rw [hms] at ho ⊢
        show arrivedAt q sh.log = _
        rw [ho, handledBy, if_pos rfl]
        simp [Event.onTelegram]
    | left =>
        rcases hproper with hnil | ⟨m, err, hmem, herr⟩
        · rw [hnil] at ho
          exact ho
        · -- the message handled last made an accessor throw
          have harrived : m ∈ arrivedAt q sh.log := by
            rw [ho]
            exact List.mem_append_left _ (mem_handledBy hmem)
          exact absurd herr (h.messages q m harrived).target_ne_error
    | _ => exact ho
  · rw [if_neg hq]
    cases e with
    | arrived ms => rwa [arrivedAt, if_neg (Ne.symm hq)]
    | handled m => rwa [handledBy, if_neg (Ne.symm hq)]
    | _ => exact ho

theorem messages_apply (h : FetchInv sh) (hG : FetchDomain s sh (p, e)) (q : ℕ) :
    ∀ m ∈ arrivedAt q (sh.apply (p, e)).log, FetchMessage m := by
  have hold := h.messages q
  cases e with
  | arrived ms =>
      intro m hm
      rw [Shared.log_apply, arrivedAt] at hm
      split_ifs at hm
      · rcases List.mem_append.mp hm with hm | hm
        · exact hold m hm
        · exact hG m hm
      · exact hold m hm
  | _ => exact hold

theorem created_apply (h : FetchInv sh) (hproper : Proper stack sh (p, e))
    (hc : Created q fetchId (sh.apply (p, e)).log) :
    ∃ k ≤ (sh.apply (p, e)).fetchCount, fetchId = fetchIdOf k := by
  have hmono : sh.fetchCount ≤ (sh.apply (p, e)).fetchCount := by
    rw [Shared.fetchCount_apply]
    unfold Event.onFetchCount
    split
    · exact Nat.le_succ _
    · exact le_rfl
  obtain ⟨pe, hmem, hq, hadds⟩ := hc
  rcases List.mem_cons.mp hmem with rfl | hmem
  · cases e with
    | registered r n params =>
        rcases r with ⟨k, path, cb⟩ | ⟨i, f⟩
        · cases hadds
        · obtain rfl : i = fetchId := Option.some.inj hadds
          exact ⟨sh.fetchCount + 1, le_rfl, (hproper.2 i f rfl).1⟩
    | _ => cases hadds
  · obtain ⟨k, hk, hid⟩ := h.created q fetchId ⟨pe, hmem, hq, hadds⟩
    exact ⟨k, hk.trans hmono, hid⟩

/-- Only an addition puts a fetch into the table. -/
theorem has_onTables {t : Tables} (h : (e.onTables t).Has (.fetch fetchId)) :
    t.Has (.fetch fetchId) ∨ e.adds = some fetchId := by
  cases e with
  | registered r n params =>
      refine (Tables.has_add.mp h).symm.imp id fun hr => ?_
      rcases r with ⟨k, path, cb⟩ | ⟨i, f⟩
      · cases hr
      · cases hr
        rfl
  | removed item => exact .inl (Tables.has_discard.mp h).2
  | answered cause item n result =>
      refine .inl ?_
      change (Tables.rollBack result item t).Has _ at h
      rw [Tables.rollBack_eq] at h
      split_ifs at h
      · exact (Tables.has_discard.mp h).2
      · exact h
  | cleared part => exact .inl (Tables.has_clear.mp h).2
  | _ => exact .inl h

/-- An event that retires a fetch takes it out of the table. -/
theorem not_has_of_retires {t : Tables} (h : e.retires = some fetchId) :
    ¬ (e.onTables t).Has (.fetch fetchId) := by
  cases e with
  | removed item =>
      rcases item with ⟨k, path⟩ | i
      · cases h
      · cases h
        show ¬ (t.discard (.fetch fetchId)).Has (.fetch fetchId)
        exact fun hm => (Tables.has_discard.mp hm).1 rfl
  | answered cause item n result =>
      rcases item with ⟨k, path⟩ | i
      · cases h
      · change (if isError result then some i else none) = some fetchId at h
        split_ifs at h with herr
        cases h
        show ¬ (Tables.rollBack result (.fetch fetchId) t).Has (.fetch fetchId)
        rw [Tables.rollBack_eq, if_pos herr]
        exact fun hm => (Tables.has_discard.mp hm).1 rfl
  | _ => cases h

/-- A retired fetch stays out of the table. -/
theorem retired_apply (h : FetchInv sh) (hproper : Proper stack sh (p, e))
    (hG : FetchDomain s sh (p, e)) (hr : Retired q fetchId (sh.apply (p, e)).log) :
    fetchId ∉ ((sh.apply (p, e)).peers q).tables.fetchers := by
  rw [Shared.tables_apply]
  rcases hr with ⟨rfl, hretires, -⟩ | hr
  · rw [if_pos rfl]
    exact not_has_of_retires hretires
  · have hout := h.retired q fetchId hr
    split_ifs with hq
    · intro hmem
      rcases has_onTables hmem with hmem | hadds
      · exact hout hmem
      · -- an id is not handed out again
        cases e with
        | registered r n params =>
            rcases r with ⟨k, path, cb⟩ | ⟨i, f⟩
            · cases hadds
            · obtain rfl : i = fetchId := Option.some.inj hadds
              obtain ⟨k, hk, hid⟩ := h.created q i hr.created
              have hlt : sh.fetchCount + 1 < 2 ^ 32 := hG
              have hnew : i = fetchIdOf (sh.fetchCount + 1) := (hproper.2 i f rfl).1
              have := fetchIdOf_inj (by omega) hlt (hid.symm.trans hnew)
              omega
        | _ => cases hadds
    · exact hout

theorem quiet_apply (h : FetchInv sh) (hproper : Proper stack sh (p, e)) :
    QuietAfter (sh.apply (p, e)).log := by
  cases e with
  | called i cb params status =>
      refine ⟨fun hr => ?_, h.quiet⟩
      obtain ⟨⟨f, hf, -⟩, -⟩ := hproper
      exact h.retired p i hr (Maps.mem_of_lookup hf)
  | _ => exact h.quiet

theorem FetchInv.apply (h : FetchInv sh) (hproper : Proper stack sh (p, e))
    (hG : FetchDomain s sh (p, e)) : FetchInv (sh.apply (p, e)) where
  order := order_apply h hproper
  messages := messages_apply h hG
  count := by
    rw [Shared.fetchCount_apply]
    cases e with
    | registered r n params =>
        rcases r with ⟨k, path, cb⟩ | ⟨i, f⟩
        · exact h.count
        · exact hG
    | _ => exact h.count
  created q fetchId := created_apply h hproper
  retired q fetchId := retired_apply h hproper hG
  quiet := quiet_apply h hproper

end

section

variable {sh : Shared} {stack : List Frame} {a : Action} {r : Effect} {p : ℕ} {m : Json}

end

end JetPeer
