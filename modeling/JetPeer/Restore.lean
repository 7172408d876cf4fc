/-
JetPeer/Restore.lean

The fetches of a peer over any number of connections.

`m_fetchers` outlives the connections, and `start()` asks for all of it again.
`fetchersOf` replays three kinds of events only: a fetch was added, a fetch
was removed, an add was answered with an error.  That this is the table
(`Restorable.fetchers`) says that losses, resumptions and whatever else
happens leave it alone.

An add may be answered by a cancellation, or by anything that carries its id;
it always is the answer to the fetch's own request, because the closure in the
table has the number of the object that registered the fetch
(`Registered`).  The params of the request built then are kept in the log, and
`start()` builds the same ones anew.
-/
import JetPeer.Process

namespace JetPeer

open Runs

/-! ### The fetches, from the log -/

/-- The three events that change the fetches. -/
def Event.onFetchers : Event → (AList fun _ : FetchId => Fetcher) → AList fun _ : FetchId => Fetcher
  | .registered (.fetch fetchId f) _ _, t => t.insert fetchId f
  | .removed (.fetch fetchId), t => t.erase fetchId
  | .answered _ (.fetch fetchId) _ result, t => if isError result then t.erase fetchId else t
  | _, t => t

def fetchersOf (p : ℕ) : List (ℕ × Event) → AList fun _ : FetchId => Fetcher
  | [] => ∅
  | (q, e) :: log => if q = p then e.onFetchers (fetchersOf p log) else fetchersOf p log

/-- The params of the request an event builds for a fetch. -/
def Event.built (fetchId : FetchId) : Event → Option Json
  | .registered (.fetch i _) _ params => if i = fetchId then some params else none
  | _ => none

/-- The params of the request built when the fetch was added. -/
def builtFor (p : ℕ) (fetchId : FetchId) : List (ℕ × Event) → Option Json
  | [] => none
  | (q, e) :: log => (if q = p then e.built fetchId else none).or (builtFor p fetchId log)

/-- The item was registered by the request object `serial`. -/
def RegisteredIn (log : List (ℕ × Event)) (p : ℕ) (item : Item) (serial : ℕ) : Prop :=
  ∃ r params, r.item = item ∧ (p, .registered r serial params) ∈ log

/-- The item of a closure was registered by the closure's own request. -/
def Registered (log : List (ℕ × Event)) (cl : Closure) : Prop :=
  ∀ item, cl.item = some item → RegisteredIn log cl.peer item cl.serial

/-- Every add is answered after it was made, and by its own request. -/
def AnsweredOwn : List (ℕ × Event) → Prop
  | [] => True
  | (p, .answered _ item serial _) :: log => RegisteredIn log p item serial ∧ AnsweredOwn log
  | _ :: log => AnsweredOwn log

/-- The table of fetches is what was added and not taken back, and each entry
has the matcher of the request built for it. -/
structure Restorable (sh : Shared) : Prop where
  fetchers : ∀ p, (sh.peers p).tables.fetchers = fetchersOf p sh.log
  built : ∀ p fetchId f, (sh.peers p).tables.fetchers.lookup fetchId = some f →
    builtFor p fetchId sh.log = some (addFetchParams f.matcher fetchId)
  answered : AnsweredOwn sh.log
  closures : ∀ id cl, sh.requests.callback id = some cl → Registered sh.log cl

/-- The frames of a run without destructors. -/
def OwnFrames (sh : Shared) : Frame → Prop
  | .execute cl _ => Registered sh.log cl
  | .invoke _ cl _ => Registered sh.log cl
  | .await p (some item) serial => RegisteredIn sh.log p item serial
  | .stop _ true => False
  | .clear _ .fetchers => False
  | _ => True

/-- No peer is destroyed. -/
def NoDestroy (_ : Process) : ℕ × Action → Prop
  | (_, .call (.destroy _)) => False
  | _ => True

instance (s : Process) (a : ℕ × Action) : Decidable (NoDestroy s a) := by
  obtain ⟨tid, a⟩ := a
  cases a with
  | call c => cases c <;> dsimp only [NoDestroy] <;> infer_instance
  | _ => dsimp only [NoDestroy]; infer_instance

/-! ### One event -/

section

variable {sh : Shared} {stack : List Frame} {p : ℕ} {e : Event} {pe : ℕ × Event}

theorem RegisteredIn.mono {log log' : List (ℕ × Event)} {item : Item} {serial : ℕ}
    (h : RegisteredIn log p item serial) (hsub : log ⊆ log') : RegisteredIn log' p item serial := by
  obtain ⟨r, params, hr, hmem⟩ := h
  exact ⟨r, params, hr, hsub hmem⟩

theorem Registered.mono {log log' : List (ℕ × Event)} {cl : Closure} (h : Registered log cl)
    (hsub : log ⊆ log') : Registered log' cl :=
  fun item hitem => (h item hitem).mono hsub

theorem OwnFrames.apply {f : Frame} (h : OwnFrames sh f) : OwnFrames (sh.apply pe) f := by
  have hsub : sh.log ⊆ (sh.apply pe).log := List.subset_cons_self ..
  cases f with
  | execute cl doc => exact Registered.mono h hsub
  | invoke cause cl result => exact Registered.mono h hsub
  | await p item serial =>
      cases item with
      | none => trivial
      | some item => exact RegisteredIn.mono h hsub
  | stop p destroy => cases destroy <;> exact h
  | clear p part => cases part <;> exact h
  | _ => trivial

/-- What an event does to the fetches, where no destructor clears them. -/
theorem onTables_fetchers (t : Tables) (h : e ≠ .cleared .fetchers) :
    (e.onTables t).fetchers = e.onFetchers t.fetchers := by
  cases e with
  | registered r n params =>
      rcases r with ⟨k, path, cb⟩ | ⟨i, f⟩
      · cases k <;> rfl
      · rfl
  | removed item =>
      rcases item with ⟨k, path⟩ | i
      · cases k <;> rfl
      · rfl
  | answered cause item n result =>
      show (Tables.rollBack result item t).fetchers = _
      rw [Tables.rollBack_eq]
      rcases item with ⟨k, path⟩ | i
      · cases k <;> split_ifs <;> rfl
      · exact apply_ite Tables.fetchers ..
  | cleared part => cases part <;> first | rfl | exact absurd rfl h
  | _ => rfl

/-- An entry after an event is one from before, or the one just made. -/
theorem lookup_onFetchers {t : AList fun _ : FetchId => Fetcher} {fetchId : FetchId} {f : Fetcher}
    (h : (e.onFetchers t).lookup fetchId = some f) :
    (e.built fetchId = none ∧ t.lookup fetchId = some f) ∨
      ∃ n params, e = .registered (.fetch fetchId f) n params := by
  -- an erased table has no more entries
  have herase : ∀ i, (t.erase i).lookup fetchId = some f → t.lookup fetchId = some f := by
    intro i hi
    by_cases hne : fetchId = i
    · subst hne
      simp at hi
    · rwa [AList.lookup_erase_ne hne] at hi
  cases e with
  | registered r n params =>
      rcases r with ⟨k, path, cb⟩ | ⟨i, g⟩
      · exact .inl ⟨rfl, h⟩
      · by_cases hi : fetchId = i
        · subst hi
          obtain rfl : g = f := by simpa [Event.onFetchers] using h
          exact .inr ⟨n, params, rfl⟩
        · refine .inl ⟨if_neg (Ne.symm hi), ?_⟩
          rwa [Event.onFetchers, AList.lookup_insert_ne hi] at h
  | removed item =>
      rcases item with ⟨k, path⟩ | i
      · exact .inl ⟨rfl, h⟩
      · exact .inl ⟨rfl, herase i h⟩
  | answered cause item n result =>
      rcases item with ⟨k, path⟩ | i
      · exact .inl ⟨rfl, h⟩
      · refine .inl ⟨rfl, ?_⟩
        change AList.lookup fetchId (if isError result then t.erase i else t) = some f at h
        split_ifs at h
        · exact herase i h
        · exact h
  | _ => exact .inl ⟨rfl, h⟩

/-- A closure in the table after an event was there before, or is entered by
it. -/
theorem callback_apply {id : UInt32} {cl : Closure}
    (h : (sh.apply (p, e)).requests.callback id = some cl) :
    sh.requests.callback id = some cl ∨ ∃ i, e = .opened i cl := by
  cases e with
  | opened i cl' =>
      by_cases hid : id = sh.requests.sid + 1
      · subst hid
        rw [Shared.requests_apply, Event.onRequests, RequestTable.callback_enter_self] at h
        exact .inr ⟨i, by rw [Option.some.inj h]⟩
      · rw [Shared.requests_apply, Event.onRequests, RequestTable.callback_enter_of_ne hid] at h
        exact .inl h
  | installed i n =>
      exact .inl (by rwa [Shared.requests_apply, Event.onRequests,
        RequestTable.callback_installNotifier] at h)
  | completed i =>
      by_cases hid : id = i
      · subst hid
        simp [Event.onRequests] at h
      · exact .inl (by rwa [Shared.requests_apply, Event.onRequests,
          RequestTable.callback_erase_of_ne hid] at h)
  | destroyed i =>
      by_cases hid : id = i
      · subst hid
        simp [Event.onRequests] at h
      · exact .inl (by rwa [Shared.requests_apply, Event.onRequests,
          RequestTable.callback_erase_of_ne hid] at h)
  | cancelled => simp [Event.onRequests] at h
  | _ => exact .inl h

theorem AnsweredOwn.cons {log : List (ℕ × Event)} (h : AnsweredOwn log)
    (hown : ∀ cause item n result, e = .answered cause item n result →
      RegisteredIn log p item n) : AnsweredOwn ((p, e) :: log) := by
  cases e with
  | answered cause item n result => exact ⟨hown _ _ _ _ rfl, h⟩
  | _ => exact h

/-- The item of an answered add was registered by its own request. -/
theorem registeredIn_of_answered {cause n : ℕ} {item : Item} {result : Json}
    (hown : ∀ f ∈ stack, OwnFrames sh f)
    (hproper : Proper stack sh (p, .answered cause item n result)) :
    RegisteredIn sh.log p item n := by
  rcases hproper with ⟨cl, hmem, -, rfl, hitem, rfl⟩ | ⟨-, hmem⟩
  · exact hown _ hmem item hitem
  · exact hown _ hmem

theorem Restorable.apply (h : Restorable sh) (hown : ∀ f ∈ stack, OwnFrames sh f)
    (hproper : Proper stack sh (p, e)) : Restorable (sh.apply (p, e)) := by
  have hclear : e ≠ .cleared .fetchers := by
    rintro rfl
    exact hown _ hproper
  have hfetchers : ∀ q, ((sh.apply (p, e)).peers q).tables.fetchers =
      if q = p then e.onFetchers (sh.peers q).tables.fetchers
      else (sh.peers q).tables.fetchers := by
    intro q
    rw [Shared.tables_apply]
    split_ifs
    · exact onTables_fetchers _ hclear
    · rfl
  refine ⟨fun q => ?_, fun q fetchId f hf => ?_, ?_, fun id cl hcl => ?_⟩
  · rw [hfetchers, h.fetchers q, Shared.log_apply, fetchersOf]
    by_cases hq : q = p
    · rw [if_pos hq, if_pos hq.symm]
    · rw [if_neg hq, if_neg (Ne.symm hq)]
  · rw [hfetchers] at hf
    rw [Shared.log_apply, builtFor]
    by_cases hq : q = p
    · subst hq
      rw [if_pos rfl] at hf ⊢
      rcases lookup_onFetchers hf with ⟨hnone, hf⟩ | ⟨n, params, rfl⟩
      · rw [hnone]
        exact h.built q fetchId f hf
      · -- the request for the entry just made
        obtain ⟨-, hparams⟩ := hproper
        obtain ⟨-, rfl⟩ := hparams fetchId f rfl
        simp [Event.built]
    · rw [if_neg hq] at hf
      rw [if_neg (Ne.symm hq)]
      exact h.built q fetchId f hf
  · refine h.answered.cons ?_
    rintro cause item n result rfl
    exact registeredIn_of_answered hown hproper
  · refine Registered.mono ?_ (List.subset_cons_self ..)
    rcases callback_apply hcl with hold | ⟨i, rfl⟩
    · exact h.closures id cl hold
    · obtain ⟨-, -, doc, hmem⟩ := hproper
      exact hown _ hmem

end

/-! ### Runs -/

theorem restorable_init : Restorable {} where
  fetchers := fun _ => rfl
  built := fun _ _ _ h => nomatch h
  answered := trivial
  closures := fun _ _ h => nomatch h

/-- The log of a state on the way is part of the log at the end. -/
theorem Happens.log_subset {sh sh' : Shared} {es : List (ℕ × Event)} {pe : ℕ × Event}
    (h : Happens sh es sh' pe) : sh'.log ⊆ (sh.applyAll es).log := by
  obtain ⟨es₁, es₂, rfl, rfl⟩ := h
  rw [Shared.log_applyAll, Shared.log_applyAll, List.reverse_append, List.append_assoc]
  exact List.subset_append_right ..

theorem restorable_run {n : ℕ} {as : List (ℕ × Action)} {s : Process}
    (h : processMachine.Run NoDestroy (Threads.idle {} n) as s) :
    Restorable s.shared ∧ s.AllFrames OwnFrames := by
  refine process_invariant (G := fun _ _ _ => True) h ?_ restorable_init
    (Threads.allFrames_idle _ _ _) ?_ ?_
  · intro s a _ stack _ r _
    generalize s.shared = sh, r.1 = es
    induction es generalizing sh with
    | nil => trivial
    | cons e es ih => exact ⟨trivial, ih _⟩
  · rintro s stack sh ⟨p, e⟩ hstack hI hJ hproper -
    refine ⟨hI.apply (hJ stack hstack) hproper, fun stack' hstack' f hf => ?_⟩
    exact (hJ stack' hstack' f hf).apply
  · intro s stack tid a es f hstack hC halong hJ hf
    cases f with
    | execute cl doc =>
        intro item hitem
        obtain ⟨r, params, hr, hmem⟩ := hf item hitem
        refine ⟨r, params, hr, ?_⟩
        rw [Shared.log_applyAll]
        exact List.mem_append_left _ (List.mem_reverse.mpr hmem)
    | invoke cause cl result =>
        obtain ⟨id, sh', hcl, hhappens⟩ := hf
        rcases hhappens with hh | ⟨hh, -⟩
        · exact ((halong.of_happens hh).1.closures id cl hcl).mono hh.log_subset
        · exact ((halong.of_happens hh).1.closures id cl hcl).mono hh.log_subset
    | await p item serial =>
        obtain ⟨cl, doc, hmem, rfl, hitem, rfl⟩ := hf
        cases item with
        | none => trivial
        | some item => exact hJ stack hstack _ hmem item hitem
    | stop p destroy =>
        cases destroy with
        | false => trivial
        | true =>
            obtain rfl : a = .call (.destroy p) := hf
            exact hC
    | clear p part =>
        cases part with
        | fetchers => exact hJ stack hstack (.stop p true) (hf.2 rfl)
        | _ => trivial
    | _ => trivial

/-! ### `start()` -/

/-- Between `s` and `t` one request is sent for each fetch of `p`, in some
order, with the params of the request once built for it, and nothing else
happens. -/
def SendsEach (p : ℕ) (s t : Process) : Prop :=
  ∃ requests : List (FetchId × Json),
    (requests.map Prod.fst).Perm (s.shared.peers p).tables.fetchers.keys ∧
      (∀ d ∈ requests, ∃ params, builtFor p d.1 s.shared.log = some params ∧
        d.2 = requestDoc Word.fetch params) ∧
      t.shared.log = (requests.map fun d => (p, Event.sent d.2)).reverse ++ s.shared.log

/-- The request `restoreFetch` builds. -/
def restoreRequest (t : Tables) (fetchId : FetchId) : Json :=
  requestDoc Word.fetch
    (restoreFetchParams (((t.fetchers.lookup fetchId).map Fetcher.matcher).getD {}) fetchId)

theorem restoreDocs_eq {t : Tables} {ids : List (FetchId × Bool)}
    (hkeys : ∀ i ∈ ids, i.1 ∈ t.fetchers) (htaken : ∀ i ∈ ids, i.2 = true) :
    Shared.restoreDocs t ids = ids.map fun i => restoreRequest t i.1 := by
  induction ids with
  | nil => rfl
  | cons i ids ih =>
      have ih := ih (fun j hj => hkeys j (List.mem_cons_of_mem _ hj))
        fun j hj => htaken j (List.mem_cons_of_mem _ hj)
      obtain ⟨f, hf⟩ := Maps.lookup_of_mem (hkeys i List.mem_cons_self)
      have hi := htaken i List.mem_cons_self
      rw [List.map_cons, ← ih]
      simp [Shared.restoreDocs, hi, hf, restoreRequest]

theorem sendsEach_restore {s t : Process} {tid p : ℕ} {ids : List (FetchId × Bool)}
    {rest : List Frame} (h : Restorable s.shared)
    (hstack : s.callStacks[tid]? = some (.restore p :: rest)) (htaken : ∀ i ∈ ids, i.2 = true)
    (hstep : processMachine.step s (tid, .run (.order ids)) = some t) : SendsEach p s t := by
  obtain ⟨stack, r, hs, heffect, rfl⟩ := processMachine_step_eq_some.mp hstep
  obtain rfl : .restore p :: rest = stack := Option.some.inj (hstack.symm.trans hs)
  obtain ⟨r, hr, rfl⟩ := Option.map_eq_some_iff.mp heffect
  obtain ⟨⟨hperm, -⟩, hr⟩ := Option.ite_none_right_eq_some.mp hr
  obtain rfl := Option.some.inj hr
  have hkeys : ∀ i ∈ ids, i.1 ∈ (s.shared.peers p).tables.fetchers := fun i hi =>
    AList.mem_keys.mpr (hperm.subset (List.mem_map_of_mem hi))
  refine ⟨ids.map fun i => (i.1, restoreRequest (s.shared.peers p).tables i.1), ?_, ?_, ?_⟩
  · rw [List.map_map]
    exact hperm
  · intro d hd
    obtain ⟨i, hi, rfl⟩ := List.mem_map.mp hd
    obtain ⟨f, hf⟩ := Maps.lookup_of_mem (hkeys i hi)
    refine ⟨_, h.built p i.1 f hf, ?_⟩
    rw [restoreRequest, hf, ← restoreFetchParams_eq]
    rfl
  · show (s.shared.applyAll _).log = _
    rw [Shared.log_applyAll, restoreDocs_eq hkeys htaken, List.map_map, List.map_map]
    rfl

/-- **Reconnecting restores exactly the live fetches.**  The table of fetches
changes by additions, removals and the errors to a fetch's own add; and the
loop of a `start()` on a connection that takes everything sends one request
for each entry, as it was built when the fetch was added. -/
theorem fetches_restored {n : ℕ} {as : List (ℕ × Action)} {s : Process}
    (h : processMachine.Run NoDestroy (Threads.idle {} n) as s) :
    (∀ p, (s.shared.peers p).tables.fetchers = fetchersOf p s.shared.log) ∧
      AnsweredOwn s.shared.log ∧
      ∀ tid p rest ids t, s.callStacks[tid]? = some (.restore p :: rest) →
        (∀ i ∈ ids, i.2 = true) →
        processMachine.step s (tid, .run (.order ids)) = some t → SendsEach p s t := by
  obtain ⟨hrestorable, -⟩ := restorable_run h
  refine ⟨hrestorable.fetchers, hrestorable.answered, ?_⟩
  intro tid p rest ids t hstack htaken hstep
  exact sendsEach_restore hrestorable hstack htaken hstep

/-- A fetch is added, and the peer resumes. -/
def fetchAndResume : List (ℕ × Action) :=
  [(0, .call (.addFetch 0 { contains := "a" } (some 0) .ignore)), (0, .run (.threw ⟨-1, ""⟩)),
    (0, .call (.resume 0)), (0, .run .go), (0, .run .go), (0, .run .go)]

theorem fetches_restored_one :
    ∃ s t, processMachine.Run NoDestroy (Threads.idle {} 1) fetchAndResume s ∧
      processMachine.step s (0, .run (.order [(1, true)])) = some t ∧ SendsEach 0 s t := by
  have h : ∃ s t, processMachine.evalIn NoDestroy (Threads.idle {} 1) fetchAndResume = some s ∧
      processMachine.step s (0, .run (.order [(1, true)])) = some t ∧
      s.callStacks[0]? = some [.restore 0] := ⟨_, _, rfl, rfl, rfl⟩
  obtain ⟨s, t, hrun, hstep, hstack⟩ := h
  have hrun := Machine.Run.of_evalIn hrun
  refine ⟨s, t, hrun, hstep, ?_⟩
  exact (fetches_restored hrun).2.2 0 0 [] _ t hstack (by simp) hstep

end JetPeer
