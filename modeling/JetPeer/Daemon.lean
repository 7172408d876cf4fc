/-
JetPeer/Daemon.lean

The states and methods of a peer and the paths the daemon holds for it.

A peer registers before it asks and removes before the daemon knows, and an
answer may arrive when the path has been removed and added again.  Paths do
not interfere, so all of this is said for one path at a time: a `View` is
what the peer serves under the path, whether the daemon holds it, and the
requests on their way there (`waiting`) and back (`answered`).

`PathStep` is what can happen to a view, `Consistent` what every view keeps:
the last request on its way decides what is served, and adds and removes
alternate.  One step needs a condition: the rollback of an add is keyed by
the path alone, so an error must not find a later add of the path.

`step_view` connects the two: a step of the peer and the daemon is a
`PathStep` of every path.
-/
import Mathlib.Data.List.Chain
import JetPeer.Registration
import JetPeer.Runs

namespace JetPeer

open Runs

/-! ### One path -/

/-- An add or a remove, of a state or a method. -/
structure Op where
  add : Bool
  kind : Kind
  deriving DecidableEq

/-- What can be seen of one path; an answer is an error or not. -/
structure View where
  served : Kind → Prop
  holds : Prop
  answered : List (Op × Bool)
  waiting : List Op

/-- The requests on their way, the oldest first. -/
def View.ops (v : View) : List Op := v.answered.map Prod.fst ++ v.waiting

/-- What can happen to a path. -/
inductive PathStep (v : View) : View → Prop
  | same : PathStep v v
  | add (k : Kind) (hfree : ∀ k', ¬ v.served k') :
      PathStep v { v with
        served := fun k' => k' = k ∨ v.served k', waiting := v.waiting ++ [⟨true, k⟩] }
  | remove (k : Kind) (hkind : ∀ k', v.served k' → k' = k) :
      PathStep v { v with
        served := fun k' => k' ≠ k ∧ v.served k', waiting := v.waiting ++ [⟨false, k⟩] }
  | accept (o : Op) (rest : List Op) (hw : v.waiting = o :: rest)
      (hacc : o.add = false → v.holds) :
      PathStep v { v with
        holds := o.add = true, answered := v.answered ++ [(o, false)], waiting := rest }
  | reject (o : Op) (rest : List Op) (hw : v.waiting = o :: rest)
      (hrej : o.add = false → ¬ v.holds) :
      PathStep v { v with answered := v.answered ++ [(o, true)], waiting := rest }
  | respond (o : Op) (e : Bool) (rest : List (Op × Bool)) (ha : v.answered = (o, e) :: rest)
      (hover : o.add = true → e = true →
        (rest.map Prod.fst ++ v.waiting).getLast? ≠ some o) :
      PathStep v { v with
        served := fun k' => ¬ (o.add = true ∧ e = true ∧ k' = o.kind) ∧ v.served k'
        answered := rest }

/-- The result of a step need only be known up to equivalence. -/
theorem PathStep.congr {v w w' : View} (h : PathStep v w)
    (hserved : ∀ k, w'.served k ↔ w.served k) (hholds : w'.holds ↔ w.holds)
    (hanswered : w'.answered = w.answered) (hwaiting : w'.waiting = w.waiting) :
    PathStep v w' := by
  obtain rfl : w' = w := by
    cases w
    cases w'
    obtain rfl := funext fun k => propext (hserved k)
    obtain rfl := propext hholds
    obtain rfl := hanswered
    obtain rfl := hwaiting
    rfl
  exact h

/-- Of two requests in a row, one is a remove. -/
def Alternate (a b : Op) : Prop := a.add = false ∨ b.add = false

/-- What the last request on its way says about the peer; where there is
none, the peer and the daemon agree. -/
def Decides (served : Kind → Prop) (holds : Prop) : Option Op → Prop
  | some ⟨true, k⟩ => ∀ k', served k' ↔ k' = k
  | some ⟨false, _⟩ => ∀ k', ¬ served k'
  | none => ((∃ k, served k) ↔ holds) ∧ ∀ k k', served k → served k' → k = k'

/-- The peer and the daemon agree up to what is on its way. -/
structure Consistent (v : View) : Prop where
  alternate : v.waiting.IsChain Alternate
  head : ∀ o rest, v.waiting = o :: rest → o.add = true → ¬ v.holds
  last : Decides v.served v.holds v.ops.getLast?
  settled : v.waiting = [] → ∀ o e, v.answered.getLast? = some (o, e) →
    (v.holds ↔ o.add = true ∧ e = false)

section

variable {v w : View} {o : Op}

theorem View.ops_getLast?_of_waiting (h : v.waiting.getLast? = some o) :
    v.ops.getLast? = some o := by
  rw [View.ops, List.getLast?_append, h]
  rfl

theorem View.ops_getLast?_of_settled (h : v.waiting = []) :
    v.ops.getLast? = v.answered.getLast?.map Prod.fst := by
  rw [View.ops, h, List.append_nil, List.getLast?_map]

/-- Where nothing is served, nothing held is left behind by what is on its
way, and no add waits last. -/
theorem Consistent.free (h : Consistent v) (hfree : ∀ k, ¬ v.served k) :
    (∀ k, v.waiting.getLast? ≠ some ⟨true, k⟩) ∧ (v.waiting = [] → ¬ v.holds) := by
  constructor
  · intro k hlast
    have hd := h.last
    rw [View.ops_getLast?_of_waiting hlast] at hd
    exact hfree k ((hd k).mpr rfl)
  · intro hw hholds
    have hd := h.last
    rw [View.ops_getLast?_of_settled hw] at hd
    rcases ha : v.answered.getLast? with - | ⟨⟨add, k⟩, e⟩
    · rw [ha] at hd
      obtain ⟨k, hk⟩ := hd.1.mpr hholds
      exact hfree k hk
    · rw [ha] at hd
      cases add with
      | true => exact hfree k ((hd k).mpr rfl)
      | false =>
          have := (h.settled hw _ _ ha).mp hholds
          cases this.1

/-- What may wait behind the others: a remove, or an add behind no add. -/
theorem isChain_concat {l : List Op} (h : l.IsChain Alternate)
    (ho : o.add = false ∨ ∀ k, l.getLast? ≠ some ⟨true, k⟩) :
    (l ++ [o]).IsChain Alternate := by
  rw [List.isChain_append]
  refine ⟨h, List.isChain_singleton _, ?_⟩
  intro a ha b hb
  obtain rfl : o = b := by simpa using hb
  rcases ho with ho | ho
  · exact .inr ho
  · rcases a with ⟨add, k⟩
    cases add with
    | true => exact absurd ha (ho k)
    | false => exact .inl rfl

/-- A request put behind the others decides from then on. -/
theorem Consistent.concat {served : Kind → Prop} (h : Consistent v)
    (hchain : o.add = false ∨ ∀ k, v.waiting.getLast? ≠ some ⟨true, k⟩)
    (hholds : v.waiting = [] → o.add = true → ¬ v.holds)
    (hserved : Decides served v.holds (some o)) :
    Consistent { v with served := served, waiting := v.waiting ++ [o] } where
  alternate := isChain_concat h.alternate hchain
  head := by
    intro o' rest hw hadd
    rcases hwait : v.waiting with - | ⟨a, l⟩
    · obtain ⟨rfl, -⟩ : o = o' ∧ [] = rest := by simpa [hwait] using hw
      exact hholds hwait hadd
    · obtain ⟨rfl, -⟩ : a = o' ∧ l ++ [o] = rest := by simpa [hwait] using hw
      exact h.head a l hwait hadd
  last := by
    rw [View.ops_getLast?_of_waiting (o := o) (by simp)]
    exact hserved
  settled := fun hw => absurd hw (by simp)

/-- A request the daemon has dealt with: what it holds then is what the
request and its answer say. -/
theorem Consistent.answer {holds : Prop} {rest : List Op} {e : Bool} (h : Consistent v)
    (hw : v.waiting = o :: rest) (hholds : holds ↔ o.add = true ∧ e = false) :
    Consistent { v with
      holds := holds, answered := v.answered ++ [(o, e)], waiting := rest } where
  alternate := by
    have := h.alternate
    rw [hw] at this
    exact this.tail
  head := by
    intro o' rest' hrest hadd hh
    obtain rfl : rest = o' :: rest' := hrest
    have halt := h.alternate
    rw [hw] at halt
    rcases (List.isChain_cons_cons.mp halt).1 with ho | ho
    · exact Bool.false_ne_true (ho.symm.trans (hholds.mp hh).1)
    · exact Bool.false_ne_true (ho.symm.trans hadd)
  last := by
    have hops : View.ops { v with
        holds := holds, answered := v.answered ++ [(o, e)], waiting := rest } = v.ops := by
      simp [View.ops, hw]
    have hne : v.ops ≠ [] := by simp [View.ops, hw]
    rw [hops]
    have hd := h.last
    rcases hl : v.ops.getLast? with - | ⟨add, k⟩
    · exact absurd (List.getLast?_eq_none_iff.mp hl) hne
    · rw [hl] at hd
      cases add <;> exact hd
  settled := by
    intro _ o' e' hlast
    obtain ⟨rfl, rfl⟩ : o = o' ∧ e = e' := by simpa using hlast
    exact hholds

/-- An answer that has arrived: its request no longer counts. -/
theorem Consistent.respond {e : Bool} {rest : List (Op × Bool)} (h : Consistent v)
    (ha : v.answered = (o, e) :: rest)
    (hover : o.add = true → e = true → (rest.map Prod.fst ++ v.waiting).getLast? ≠ some o) :
    Consistent { v with
      served := fun k' => ¬ (o.add = true ∧ e = true ∧ k' = o.kind) ∧ v.served k'
      answered := rest } where
  alternate := h.alternate
  head := h.head
  last := by
    have hops : v.ops.getLast? = some ((rest.map Prod.fst ++ v.waiting).getLast?.getD o) := by
      rw [View.ops, ha, List.map_cons, List.cons_append, List.getLast?_cons]
    have hd := h.last
    rw [hops] at hd
    show Decides _ _ (rest.map Prod.fst ++ v.waiting).getLast?
    rcases hl : (rest.map Prod.fst ++ v.waiting).getLast? with - | ⟨add, k⟩
    · -- nothing else is on its way: the daemon has done what the answer says
      rw [hl] at hd
      obtain ⟨hwait, hrest⟩ : v.waiting = [] ∧ rest = [] := by simpa using hl
      have hholds := h.settled hwait o e (by rw [ha, hrest]; rfl)
      obtain ⟨add, k⟩ := o
      cases add with
      | true =>
          have hd : ∀ k', v.served k' ↔ k' = k := hd
          cases e <;> simp [Decides, hholds, hd]
      | false =>
          have hd : ∀ k', ¬ v.served k' := hd
          simp [Decides, hholds, hd]
    · rw [hl] at hd
      cases add with
      | true =>
          have hd : ∀ k', v.served k' ↔ k' = k := hd
          intro k'
          refine ⟨fun hk => (hd k').mp hk.2, fun hk => ⟨?_, (hd k').mpr hk⟩⟩
          rintro ⟨hadd, he, hkind⟩
          -- the rollback would hit the add that is still on its way
          apply hover hadd he
          rw [hl, ← hk, hkind, ← hadd]
      | false => exact fun k' hk => hd k' hk.2
  settled := by
    intro hw o' e' hlast
    refine h.settled hw o' e' ?_
    rw [ha, List.getLast?_cons, hlast]
    rfl

theorem Consistent.pathStep (h : Consistent v) (hstep : PathStep v w) : Consistent w := by
  cases hstep with
  | same => exact h
  | add k hfree =>
      obtain ⟨hlast, hholds⟩ := h.free hfree
      refine h.concat (.inr hlast) (fun hw _ => hholds hw) fun k' => ?_
      exact ⟨fun hk => hk.resolve_right (hfree k'), .inl⟩
  | remove k hkind =>
      exact h.concat (.inl rfl) (fun _ h' => absurd h' Bool.false_ne_true)
        fun k' hk' => hk'.1 (hkind k' hk'.2)
  | accept o rest hw hacc => exact h.answer hw (by simp)
  | reject o rest hw hrej =>
      refine h.answer hw ⟨fun hh => ?_, fun hh => absurd hh.2 (by simp)⟩
      cases hadd : o.add with
      | true => exact absurd hh (h.head o rest hw hadd)
      | false => exact absurd hh (hrej hadd)
  | respond o e rest ha hover => exact h.respond ha hover

end

/-! ### The peer and the daemon

Every call takes a result callback; that the answer to a request reaches the
closure of this request is the accounting of requests. -/

/-- An add or a remove, as the daemon gets it. -/
structure PathRequest where
  op : Op
  path : String
  deriving DecidableEq

inductive Holder where
  | thisPeer
  | otherPeer
  deriving DecidableEq

/-- The peer, the requests on their way to the daemon and back, and whom the
daemon takes for the owner of a path.  `starting` are the calls that have
changed the tables and not yet sent. -/
structure Owning where
  tables : Tables := {}
  starting : List PathRequest := []
  requests : List PathRequest := []
  responses : List (PathRequest × Json) := []
  holders : AList fun _ : String => Holder := ∅

inductive OwningAction where
  | begin (r : PathRequest) (callback : Option Callback)
  | send (i : ℕ)
  | process (answer : Json)
  | respond
  | take (path : String)
  | release (path : String)

namespace Owning

/-- `addStateAsync`, `addMethodAsync`, `removeStateAsync`, `removeMethodAsync`
up to the request. -/
def begin (s : Owning) (r : PathRequest) (callback : Option Callback) : Owning :=
  if r.op.add then
    { s with
      tables := s.tables.register r.op.kind r.path callback, starting := s.starting ++ [r] }
  else if r.path = "" then s
  else { s with tables := s.tables.unregister r.op.kind r.path, starting := s.starting ++ [r] }

/-- The daemon accepts an add iff nobody owns the path, a remove iff this
peer does. -/
def accepts (s : Owning) (r : PathRequest) : Bool :=
  if r.op.add then s.holders.lookup r.path = none
  else s.holders.lookup r.path = some .thisPeer

/-- Who owns a path once the request is accepted. -/
def grant (s : Owning) (r : PathRequest) : AList fun _ : String => Holder :=
  if r.op.add then s.holders.insert r.path .thisPeer else s.holders.erase r.path

/-- The daemon deals with the oldest request; its answer is any document that
is an error iff the request is not accepted. -/
def process (s : Owning) (answer : Json) : Option Owning :=
  match s.requests with
  | [] => none
  | r :: rest =>
      if isError answer = !s.accepts r then
        some { s with
          requests := rest
          responses := s.responses ++ [(r, answer)]
          holders := if s.accepts r then s.grant r else s.holders }
      else none

/-- The closure of the request; that of a remove is the user's. -/
def respond (s : Owning) : Option Owning :=
  match s.responses with
  | [] => none
  | (r, answer) :: rest => some { s with
      responses := rest
      tables := if r.op.add then addResultCb answer r.op.kind r.path s.tables else s.tables }

end Owning

/-- `take` and `release` are other peers. -/
def owningStep (s : Owning) : OwningAction → Option Owning
  | .begin r callback => some (s.begin r callback)
  | .send i => (s.starting[i]?).map fun r => { s with
      starting := s.starting.eraseIdx i, requests := s.requests ++ [r] }
  | .process answer => s.process answer
  | .respond => s.respond
  | .take path =>
      if s.holders.lookup path = none then
        some { s with holders := s.holders.insert path .otherPeer }
      else none
  | .release path =>
      if s.holders.lookup path = some .otherPeer then
        some { s with holders := s.holders.erase path }
      else none

def owningMachine : Machine Owning OwningAction := ⟨owningStep⟩

/-! ### What one path sees -/

/-- The requests for `path` among others. -/
def opsOn (path : String) (rs : List PathRequest) : List Op :=
  rs.filterMap fun r => if r.path = path then some r.op else none

/-- The answers to requests for `path` among others. -/
def answersOn (path : String) (as : List (PathRequest × Json)) : List (Op × Bool) :=
  as.filterMap fun a => if a.1.path = path then some (a.1.op, isError a.2) else none

namespace Owning

def view (s : Owning) (path : String) : View where
  served k := s.tables.Serves k path
  holds := s.holders.lookup path = some .thisPeer
  answered := answersOn path s.responses
  waiting := opsOn path (s.requests ++ s.starting)

end Owning

/-- A path is added while it is in neither table, and removed with the
operation of its kind. -/
def CallsInDomain (s : Owning) : OwningAction → Prop
  | .begin r _ =>
      if r.op.add then ∀ k, ¬ s.tables.Serves k r.path
      else ∀ k, s.tables.Serves k r.path → k = r.op.kind
  | _ => True

/-- Requests for one path are sent in the order of their table changes. -/
def SentInOrder (s : Owning) : OwningAction → Prop
  | .send i => ∀ r ∈ s.starting[i]?, ∀ r' ∈ s.starting.take i, r'.path ≠ r.path
  | _ => True

/-- When the error to an add arrives, the last request the peer has issued for
the path since is not an add of the same kind. -/
def NotOvertaken (s : Owning) : OwningAction → Prop
  | .respond => ∀ a ∈ s.responses.head?, a.1.op.add = true → isError a.2 = true →
      (opsOn a.1.path (s.responses.tail.map Prod.fst ++ (s.requests ++ s.starting))).getLast?
        ≠ some a.1.op
  | _ => True

def OwningGuard (s : Owning) (a : OwningAction) : Prop :=
  CallsInDomain s a ∧ SentInOrder s a ∧ NotOvertaken s a

instance {P : Kind → Prop} [DecidablePred P] : Decidable (∀ k, P k) :=
  decidable_of_iff (P .state ∧ P .method) ⟨fun h k => by cases k; exacts [h.1, h.2],
    fun h => ⟨h _, h _⟩⟩

instance (s : Owning) (a : OwningAction) : Decidable (CallsInDomain s a) := by
  cases a <;> dsimp only [CallsInDomain] <;> infer_instance

instance (s : Owning) (a : OwningAction) : Decidable (SentInOrder s a) := by
  cases a <;> dsimp only [SentInOrder] <;> infer_instance

instance (s : Owning) (a : OwningAction) : Decidable (NotOvertaken s a) := by
  cases a <;> dsimp only [NotOvertaken] <;> infer_instance

instance (s : Owning) (a : OwningAction) : Decidable (OwningGuard s a) :=
  inferInstanceAs (Decidable (_ ∧ _ ∧ _))

section

variable {path : String} {r : PathRequest} {rs rs' : List PathRequest}

@[simp] theorem opsOn_nil : opsOn path [] = [] := rfl

@[simp] theorem opsOn_append : opsOn path (rs ++ rs') = opsOn path rs ++ opsOn path rs' :=
  List.filterMap_append

@[simp] theorem opsOn_cons_self (h : r.path = path) :
    opsOn path (r :: rs) = r.op :: opsOn path rs := by
  simp [opsOn, h]

@[simp] theorem opsOn_cons_of_ne (h : r.path ≠ path) : opsOn path (r :: rs) = opsOn path rs := by
  simp [opsOn, h]

theorem opsOn_eq_nil (h : ∀ r ∈ rs, r.path ≠ path) : opsOn path rs = [] := by
  induction rs with
  | nil => rfl
  | cons r rs ih =>
      rw [opsOn_cons_of_ne (h r List.mem_cons_self)]
      exact ih fun r' hr' => h r' (List.mem_cons_of_mem _ hr')

theorem answersOn_fst (as : List (PathRequest × Json)) :
    (answersOn path as).map Prod.fst = opsOn path (as.map Prod.fst) := by
  rw [answersOn, opsOn, List.map_filterMap, List.filterMap_map]
  congr 1
  funext a
  by_cases h : a.1.path = path <;> simp [h]

/-- A request sent in order stays where it is among those for its path. -/
theorem opsOn_send {i : ℕ} (hi : rs'[i]? = some r)
    (hfirst : ∀ r' ∈ rs'.take i, r'.path ≠ r.path) :
    opsOn path (rs ++ [r] ++ rs'.eraseIdx i) = opsOn path (rs ++ rs') := by
  have hsplit : rs' = rs'.take i ++ r :: rs'.drop (i + 1) := by
    obtain ⟨hlt, rfl⟩ := List.getElem?_eq_some_iff.mp hi
    rw [← List.drop_eq_getElem_cons hlt, List.take_append_drop]
  rw [List.eraseIdx_eq_take_drop_succ]
  conv_rhs => rw [hsplit]
  simp only [opsOn_append, List.append_assoc]
  by_cases h : r.path = path
  · have hnil : opsOn path (rs'.take i) = [] := opsOn_eq_nil (by rwa [h] at hfirst)
    simp [h, hnil]
  · simp [h]

/-! ### A step of the machine is a step of every path -/

variable {s t : Owning}

theorem waiting_begin :
    opsOn path (s.requests ++ (s.starting ++ [r])) = (s.view path).waiting ++ opsOn path [r] := by
  rw [← List.append_assoc, opsOn_append]
  rfl

/-- What a call does to the tables, seen from one path. -/
theorem serves_begin {kind k : Kind} {p : String} (callback : Option Callback) :
    (s.tables.register kind p callback).Serves k path ↔
      (k = kind ∧ path = p) ∨ (s.view path).served k :=
  Tables.serves_register callback

theorem serves_begin_remove {kind k : Kind} {p : String} :
    (s.tables.unregister kind p).Serves k path ↔
      ¬ (k = kind ∧ path = p) ∧ (s.view path).served k :=
  Tables.serves_unregister

theorem pathStep_begin {callback : Option Callback} (hdom : CallsInDomain s (.begin r callback)) :
    PathStep (s.view path) ((s.begin r callback).view path) := by
  obtain ⟨⟨add, kind⟩, p⟩ := r
  cases add with
  | true =>
      have hfree : ∀ k, ¬ s.tables.Serves k p := hdom
      by_cases hp : p = path
      · subst hp
        refine (PathStep.add kind hfree).congr (fun k => ?_) Iff.rfl rfl ?_
        · exact Iff.trans (serves_begin callback) (by simp)
        · show opsOn _ (s.requests ++ (s.starting ++ [_])) = _
          rw [waiting_begin]
          simp
      · refine PathStep.same.congr (fun k => ?_) Iff.rfl rfl ?_
        · exact Iff.trans (serves_begin callback) (by simp [Ne.symm hp])
        · show opsOn _ (s.requests ++ (s.starting ++ [_])) = _
          rw [waiting_begin]
          simp [hp]
  | false =>
      have hkind : ∀ k, s.tables.Serves k p → k = kind := hdom
      by_cases hempty : p = ""
      · -- the removal of the empty path returns at once
        have hbegin : s.begin ⟨⟨false, kind⟩, p⟩ callback = s := if_pos hempty
        rw [hbegin]
        exact .same
      · have hbegin : s.begin ⟨⟨false, kind⟩, p⟩ callback = { s with
            tables := s.tables.unregister kind p
            starting := s.starting ++ [⟨⟨false, kind⟩, p⟩] } := if_neg hempty
        rw [hbegin]
        by_cases hp : p = path
        · subst hp
          refine (PathStep.remove kind hkind).congr (fun k => ?_) Iff.rfl rfl ?_
          · exact Iff.trans serves_begin_remove (by simp)
          · show opsOn _ (s.requests ++ (s.starting ++ [_])) = _
            rw [waiting_begin]
            simp
        · refine PathStep.same.congr (fun k => ?_) Iff.rfl rfl ?_
          · exact Iff.trans serves_begin_remove (by simp [Ne.symm hp])
          · show opsOn _ (s.requests ++ (s.starting ++ [_])) = _
            rw [waiting_begin]
            simp [hp]

theorem lookup_grant_self :
    (s.grant r).lookup r.path = some .thisPeer ↔ r.op.add = true := by
  unfold Owning.grant
  cases r.op.add <;> simp

theorem lookup_grant_of_ne (h : path ≠ r.path) :
    (s.grant r).lookup path = s.holders.lookup path := by
  unfold Owning.grant
  cases r.op.add
  · exact AList.lookup_erase_ne h
  · exact AList.lookup_insert_ne h

theorem pathStep_process {answer : Json} (h : s.process answer = some t) :
    PathStep (s.view path) (t.view path) := by
  unfold Owning.process at h
  split at h
  next => cases h
  next r rest hreq =>
    obtain ⟨hans, h⟩ := Option.ite_none_right_eq_some.mp h
    obtain rfl := Option.some.inj h
    have hwaiting : (s.view path).waiting = opsOn path [r] ++ opsOn path (rest ++ s.starting) := by
      show opsOn path (s.requests ++ s.starting) = _
      rw [hreq, ← opsOn_append]
      rfl
    have hanswered : answersOn path (s.responses ++ [(r, answer)])
        = (s.view path).answered ++ answersOn path [(r, answer)] := List.filterMap_append
    by_cases hp : r.path = path
    · subst hp
      have hfirst : (s.view r.path).waiting = r.op :: opsOn r.path (rest ++ s.starting) := by
        simpa using hwaiting
      have hlast : answersOn r.path [(r, answer)] = [(r.op, !s.accepts r)] := by
        simp [answersOn, hans]
      rw [hlast] at hanswered
      cases hacc : s.accepts r with
      | true =>
          rw [hacc] at hanswered
          refine (PathStep.accept _ _ hfirst fun hrem => ?_).congr (fun _ => Iff.rfl) ?_
            hanswered rfl
          · show s.holders.lookup r.path = some .thisPeer
            simpa [Owning.accepts, hrem] using hacc
          · show AList.lookup r.path (if true = true then s.grant r else s.holders) = _ ↔ _
            exact lookup_grant_self
      | false =>
          rw [hacc] at hanswered
          refine (PathStep.reject _ _ hfirst fun hrem => ?_).congr (fun _ => Iff.rfl) Iff.rfl
            hanswered rfl
          show ¬ s.holders.lookup r.path = some .thisPeer
          simpa [Owning.accepts, hrem] using hacc
    · refine PathStep.same.congr (fun _ => Iff.rfl) ?_ ?_ ?_
      · show AList.lookup path (if s.accepts r then s.grant r else s.holders) = _ ↔ _
        split_ifs
        · rw [lookup_grant_of_ne (Ne.symm hp)]
          rfl
        · rfl
      · exact hanswered.trans (by simp [answersOn, hp])
      · rw [hwaiting]
        simp [hp, Owning.view]

theorem pathStep_respond (hover : NotOvertaken s .respond) (h : s.respond = some t) :
    PathStep (s.view path) (t.view path) := by
  unfold Owning.respond at h
  split at h
  next => cases h
  next r answer rest hresp =>
    obtain rfl := Option.some.inj h
    have hserves : ∀ k, (if r.op.add then addResultCb answer r.op.kind r.path s.tables
        else s.tables).Serves k path ↔
        ¬ (r.op.add = true ∧ isError answer = true ∧ k = r.op.kind ∧ path = r.path) ∧
          (s.view path).served k := by
      intro k
      by_cases hadd : r.op.add = true
      · rw [if_pos hadd, addResultCb_eq]
        by_cases herr : isError answer = true
        · rw [if_pos herr]
          exact Iff.trans Tables.serves_unregister (by simp [hadd, herr, Owning.view])
        · rw [if_neg herr]
          simp [herr, Owning.view]
      · rw [if_neg hadd]
        simp [hadd, Owning.view]
    by_cases hp : r.path = path
    · subst hp
      have ha : (s.view r.path).answered = (r.op, isError answer) :: answersOn r.path rest := by
        show answersOn r.path s.responses = _
        rw [hresp]
        simp [answersOn]
      refine (PathStep.respond r.op (isError answer) _ ha fun hadd herr => ?_).congr
        (fun k => ?_) Iff.rfl rfl rfl
      · have := hover (r, answer) (by rw [hresp]; rfl) hadd herr
        rwa [hresp, List.tail_cons, opsOn_append, ← answersOn_fst] at this
      · exact (hserves k).trans (by simp)
    · refine PathStep.same.congr (fun k => ?_) Iff.rfl ?_ rfl
      · exact (hserves k).trans (by simp [Ne.symm hp])
      · show answersOn path rest = answersOn path s.responses
        rw [hresp]
        simp [answersOn, hp]

/-- **Every step of the peer and the daemon is a step of every path.** -/
theorem step_view {a : OwningAction} (hguard : OwningGuard s a)
    (h : owningMachine.step s a = some t) : PathStep (s.view path) (t.view path) := by
  obtain ⟨hdom, horder, hover⟩ := hguard
  cases a with
  | begin r callback =>
      obtain rfl := Option.some.inj h
      exact pathStep_begin hdom
  | send i =>
      obtain ⟨r, hr, rfl⟩ := Option.map_eq_some_iff.mp h
      exact PathStep.same.congr (fun _ => Iff.rfl) Iff.rfl rfl (opsOn_send hr (horder r hr))
  | process answer => exact pathStep_process h
  | respond => exact pathStep_respond hover h
  | take p =>
      obtain ⟨hfree, h⟩ := Option.ite_none_right_eq_some.mp h
      obtain rfl := Option.some.inj h
      refine PathStep.same.congr (fun _ => Iff.rfl) ?_ rfl rfl
      show AList.lookup path (s.holders.insert p .otherPeer) = _ ↔ s.holders.lookup path = _
      by_cases hp : path = p
      · subst hp
        simp [hfree]
      · rw [AList.lookup_insert_ne hp]
  | release p =>
      obtain ⟨hother, h⟩ := Option.ite_none_right_eq_some.mp h
      obtain rfl := Option.some.inj h
      refine PathStep.same.congr (fun _ => Iff.rfl) ?_ rfl rfl
      show AList.lookup path (s.holders.erase p) = _ ↔ s.holders.lookup path = _
      by_cases hp : path = p
      · subst hp
        simp [hother]
      · rw [AList.lookup_erase_ne hp]

end

/-! ### Quiescence -/

theorem view_empty (path : String) : Consistent (Owning.view {} path) where
  alternate := .nil
  head := fun _ _ h => nomatch h
  last := by
    have hserved : ∀ k, ¬ Tables.Serves {} k path := fun k => by
      cases k <;> exact AList.notMem_empty _
    refine ⟨⟨fun h => ?_, fun h => ?_⟩, fun k _ h => absurd h (hserved k)⟩
    · obtain ⟨k, hk⟩ := h
      exact absurd hk (hserved k)
    · exact nomatch h
  settled := fun _ _ _ h => nomatch h

theorem consistent_run {as : List OwningAction} {s : Owning}
    (h : owningMachine.Run OwningGuard {} as s) (path : String) : Consistent (s.view path) :=
  h.invariant (I := fun s => ∀ path, Consistent (s.view path)) view_empty
    (fun _ _ _ hI hguard hstep path => (hI path).pathStep (step_view hguard hstep)) path

/-- Nothing is in flight. -/
structure Owning.Quiet (s : Owning) : Prop where
  starting : s.starting = []
  requests : s.requests = []
  responses : s.responses = []

/-- **Whenever nothing is in flight, the paths in the tables are the paths the
daemon holds for the peer.** -/
theorem tables_agree {as : List OwningAction} {s : Owning}
    (h : owningMachine.Run OwningGuard {} as s) (hquiet : s.Quiet) (path : String) :
    (path ∈ s.tables.stateCallbacks ∨ path ∈ s.tables.methodCallbacks) ↔
      s.holders.lookup path = some .thisPeer := by
  have hops : (s.view path).ops = [] := by
    simp [View.ops, Owning.view, hquiet.starting, hquiet.requests, hquiet.responses, answersOn]
  have hlast := (consistent_run h path).last
  rw [hops] at hlast
  refine Iff.trans ⟨fun hmem => ?_, fun hserved => ?_⟩ hlast.1
  · rcases hmem with hmem | hmem
    · exact ⟨.state, hmem⟩
    · exact ⟨.method, hmem⟩
  · obtain ⟨k, hk⟩ := hserved
    cases k with
    | state => exact .inl hk
    | method => exact .inr hk

/-- A state is added, the add accepted and answered. -/
def addAccepted : List OwningAction :=
  [.begin ⟨⟨true, .state⟩, "p"⟩ none, .send 0, .process (.object [("result", .bool true)]),
    .respond]

theorem tables_agree_added :
    ∃ s, owningMachine.Run OwningGuard {} addAccepted s ∧ s.Quiet ∧
      "p" ∈ s.tables.stateCallbacks ∧ s.holders.lookup "p" = some .thisPeer := by
  have h : ∃ s, owningMachine.evalIn OwningGuard {} addAccepted = some s ∧ s.Quiet ∧
      "p" ∈ s.tables.stateCallbacks := ⟨_, rfl, ⟨rfl, rfl, rfl⟩, by decide⟩
  obtain ⟨s, hrun, hquiet, hmem⟩ := h
  have hrun := Machine.Run.of_evalIn hrun
  exact ⟨s, hrun, hquiet, hmem, (tables_agree hrun hquiet "p").mp (.inl hmem)⟩

/-! ### A rollback that comes late -/

/-- Another peer owns the path when the first add gets there, and has given
it up when the second does; the error to the first arrives after the second
registration. -/
def lateRollback : List OwningAction :=
  [.take "p", .begin ⟨⟨true, .state⟩, "p"⟩ none, .send 0,
    .process (.object [("error", .object [])]), .release "p",
    .begin ⟨⟨false, .state⟩, "p"⟩ none, .send 0, .process (.object [("error", .object [])]),
    .begin ⟨⟨true, .state⟩, "p"⟩ none, .send 0, .process (.object [("result", .bool true)]),
    .respond, .respond, .respond]

/-- The calls of this run are those the API allows, yet the peer has
forgotten a path the daemon holds for it. -/
theorem late_rollback_removes_state :
    ∃ s, owningMachine.Run CallsInDomain {} lateRollback s ∧ s.Quiet ∧
      ¬ (("p" ∈ s.tables.stateCallbacks ∨ "p" ∈ s.tables.methodCallbacks) ↔
        s.holders.lookup "p" = some .thisPeer) := by
  have h : ∃ s, owningMachine.evalIn CallsInDomain {} lateRollback = some s ∧ s.Quiet ∧
      "p" ∉ s.tables.stateCallbacks ∧ "p" ∉ s.tables.methodCallbacks ∧
      s.holders.lookup "p" = some .thisPeer :=
    ⟨_, rfl, ⟨rfl, rfl, rfl⟩, by decide, by decide, rfl⟩
  obtain ⟨s, hrun, hquiet, hstate, hmethod, hholds⟩ := h
  refine ⟨s, Machine.Run.of_evalIn hrun, hquiet, fun hiff => ?_⟩
  rcases hiff.mpr hholds with hmem | hmem
  · exact hstate hmem
  · exact hmethod hmem

end JetPeer
