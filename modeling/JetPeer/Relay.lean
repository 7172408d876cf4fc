/-
JetPeer/Relay.lean

A value that is passed on through a relay, together with acknowledgements.

A source reports to a hub, and the hub to a copy.  Both ways are queues, and
what travels on them is a new value or the acknowledgement of one; the hub
passes on whatever it gets, in order.  An acknowledgement says what value the
source has when it is given.  The copy may be cut off at any time: what is on
its way to it is lost, and it is told nothing until it asks for the value
again.  Nothing here is about a particular system: values are arbitrary.

On either way, what is in flight leads from the one end to the other, and
where an acknowledgement is reached on the way the value it speaks of has
arrived (`Honest`).  So the copy has a value as soon as the acknowledgement
of it comes (`InStep.acknowledged`), and the value of the source once nothing
is in flight (`InStep.settled`).

While it is connected a copy is told part of what the source has said, in the
same order and without a gap, and where it has been cut off it goes on at the
same place or later (`Follows`).
-/
import Mathlib.Data.List.Infix
import Mathlib.Data.List.ReduceOption

namespace Relays

variable {ν : Type*}

/-! ### Queues -/

/-- What travels on a queue. -/
inductive Signal (ν : Type*) where
  | write (v : ν)
  | ack (v : ν)

def Signal.apply (v : ν) : Signal ν → ν
  | .write w => w
  | .ack _ => v

/-- The value after everything in a queue. -/
def settle (v : ν) (xs : List (Signal ν)) : ν := xs.foldl Signal.apply v

def Signal.written : Signal ν → List ν
  | .write w => [w]
  | .ack _ => []

def Signal.isWrite : Signal ν → Bool
  | .write _ => true
  | .ack _ => false

/-- The values on a queue. -/
def writes (xs : List (Signal ν)) : List ν := xs.flatMap Signal.written

/-- What an acknowledgement speaks of is there when it is reached. -/
def Honest : ν → List (Signal ν) → Prop
  | _, [] => True
  | _, .write w :: xs => Honest w xs
  | v, .ack w :: xs => v = w ∧ Honest v xs

section Queues

variable {v w : ν} {x : Signal ν} {xs : List (Signal ν)}

@[simp] theorem settle_nil : settle v [] = v := rfl

@[simp] theorem settle_cons : settle v (x :: xs) = settle (x.apply v) xs := rfl

theorem settle_concat : settle v (xs ++ [x]) = x.apply (settle v xs) := List.foldl_concat ..

@[simp] theorem writes_nil : writes ([] : List (Signal ν)) = [] := rfl

@[simp] theorem writes_cons : writes (x :: xs) = x.written ++ writes xs := rfl

@[simp] theorem writes_append {ys : List (Signal ν)} :
    writes (xs ++ ys) = writes xs ++ writes ys := List.flatMap_append

/-- Without the acknowledgements nothing else is left out. -/
theorem settle_filter : settle v (xs.filter Signal.isWrite) = settle v xs := by
  induction xs generalizing v with
  | nil => rfl
  | cons x xs ih =>
      cases x with
      | write w => exact ih
      | ack w => exact ih

theorem writes_filter : writes (xs.filter Signal.isWrite) = writes xs := by
  induction xs with
  | nil => rfl
  | cons x xs ih =>
      cases x with
      | write w => exact congrArg (w :: ·) ih
      | ack w => exact ih

theorem honest_filter : Honest v (xs.filter Signal.isWrite) := by
  induction xs generalizing v with
  | nil => trivial
  | cons x xs ih =>
      cases x with
      | write w => exact ih
      | ack w => exact ih

theorem honest_cons : Honest v (x :: xs) ↔ (∀ w, x = .ack w → v = w) ∧ Honest (x.apply v) xs := by
  cases x with
  | write w => simp [Honest, Signal.apply]
  | ack w => simp [Honest, Signal.apply]

/-- One more at the end of the queue. -/
theorem honest_concat :
    Honest v (xs ++ [x]) ↔ Honest v xs ∧ ∀ w, x = .ack w → settle v xs = w := by
  induction xs generalizing v with
  | nil => simp [honest_cons, Honest]
  | cons y ys ih => simp only [List.cons_append, honest_cons, ih, settle_cons, and_assoc]

end Queues

/-! ### The relay -/

structure Relay (ν : Type*) where
  source : ν
  /-- From the source to the hub. -/
  up : List (Signal ν)
  hub : ν
  /-- From the hub to the copy; `none` while the copy is not connected. -/
  down : Option (List (Signal ν))
  copy : ν

/-- What is in flight leads from one end to the other. -/
structure Relay.InStep (r : Relay ν) : Prop where
  up : settle r.hub r.up = r.source
  honest : Honest r.hub r.up
  down : ∀ xs, r.down = some xs → settle r.copy xs = r.hub ∧ Honest r.copy xs

/-- A step, with what the source says in it and what the copy is told; `none`
is the end of a connection. -/
inductive Relay.Step : Relay ν → List ν → List (Option ν) → Relay ν → Prop
  /-- The source changes. -/
  | change {p us h d c} (v : ν) : Step ⟨p, us, h, d, c⟩ [v] [] ⟨v, us ++ [.write v], h, d, c⟩
  /-- The source acknowledges what it has. -/
  | ack {p us h d c} : Step ⟨p, us, h, d, c⟩ [] [] ⟨p, us ++ [.ack p], h, d, c⟩
  /-- The hub passes on. -/
  | pass {p x us h d c} :
      Step ⟨p, x :: us, h, d, c⟩ [] [] ⟨p, us, x.apply h, d.map (· ++ [x]), c⟩
  /-- The copy asks, and has what the hub has. -/
  | agree {p us h} : Step ⟨p, us, h, none, h⟩ [] [] ⟨p, us, h, some [], h⟩
  /-- The copy asks, and the hub says what it has. -/
  | announce {p us h c} : Step ⟨p, us, h, none, c⟩ [] [] ⟨p, us, h, some [.write h], c⟩
  | receive {p us h x d c} :
      Step ⟨p, us, h, some (x :: d), c⟩ [] (x.written.map some) ⟨p, us, h, some d, x.apply c⟩
  /-- The copy is cut off, and nothing is acknowledged any more. -/
  | cut {p us h d c} :
      Step ⟨p, us, h, d, c⟩ [] [none] ⟨p, us.filter Signal.isWrite, h, none, c⟩

/-- Any number of steps. -/
inductive Relay.Path : Relay ν → List ν → List (Option ν) → Relay ν → Prop
  | refl {r} : Path r [] [] r
  | tail {r r' r'' vs vs' ws ws'} : Path r vs ws r' → Step r' vs' ws' r'' →
      Path r (vs ++ vs') (ws ++ ws') r''

variable {r r' : Relay ν} {vs said : List ν} {ws told : List (Option ν)}

theorem Relay.Path.single (h : Step r vs ws r') : Path r vs ws r' := Path.refl.tail h

/-- **The step lemma.** -/
theorem Relay.Step.inStep (h : Step r vs ws r') (hi : r.InStep) : r'.InStep := by
  obtain ⟨hup, hhonest, hdown⟩ := hi
  cases h with
  | change v =>
      refine ⟨settle_concat, honest_concat.mpr ⟨hhonest, nofun⟩, hdown⟩
  | ack =>
      -- all that is queued leads to the value it speaks of
      refine ⟨settle_concat.trans hup, honest_concat.mpr ⟨hhonest, ?_⟩, hdown⟩
      intro w hw
      cases hw
      exact hup
  | pass =>
      rw [honest_cons] at hhonest
      refine ⟨hup, hhonest.2, ?_⟩
      intro xs hxs
      obtain ⟨d, hd, rfl⟩ := Option.map_eq_some_iff.mp hxs
      obtain ⟨hsettle, hd⟩ := hdown d hd
      refine ⟨?_, honest_concat.mpr ⟨hd, fun w hw => hsettle.trans (hhonest.1 w hw)⟩⟩
      rw [settle_concat, hsettle]
  | agree =>
      refine ⟨hup, hhonest, ?_⟩
      rintro xs hxs
      cases hxs
      exact ⟨rfl, trivial⟩
  | announce =>
      refine ⟨hup, hhonest, ?_⟩
      rintro xs hxs
      cases hxs
      exact ⟨rfl, trivial⟩
  | receive =>
      obtain ⟨hsettle, hd⟩ := hdown _ rfl
      refine ⟨hup, hhonest, ?_⟩
      rintro xs hxs
      cases hxs
      exact ⟨hsettle, (honest_cons.mp hd).2⟩
  | cut => exact ⟨settle_filter.trans hup, honest_filter, nofun⟩

theorem Relay.InStep.path (hi : r.InStep) (h : Path r vs ws r') : r'.InStep := by
  induction h with
  | refl => exact hi
  | tail _ hstep ih => exact hstep.inStep ih

/-- **Nothing in flight**: the copy has the value of the source. -/
theorem Relay.InStep.settled (hi : r.InStep) (hup : r.up = []) (hdown : r.down = some []) :
    r.copy = r.source := by
  have hcopy : r.copy = r.hub := (hi.down [] hdown).1
  have hhub : r.hub = r.source := by
    have := hi.up
    rwa [hup] at this
  exact hcopy.trans hhub

/-! ### The order of the values -/

/-- Every one of `ws` stands somewhere in `vs`, and never before the one it
comes after. -/
def Onward (ws vs : List ν) : Prop :=
  ∃ ks : List ℕ, ks.Pairwise (· ≤ ·) ∧ ks.map (vs[·]?) = ws.map some

section Onward

variable {v : ν} {vs' ws ws' : List ν}

theorem Onward.nil : Onward [] vs := ⟨[], .nil, rfl⟩

theorem Onward.of_append (h : Onward (ws ++ ws') vs) : Onward ws vs := by
  obtain ⟨ks, hks, hmap⟩ := h
  rw [List.map_append] at hmap
  obtain ⟨ks₁, ks₂, rfl, hks₁, -⟩ := List.map_eq_append_iff.mp hmap
  exact ⟨ks₁, (List.pairwise_append.mp hks).1, hks₁⟩

theorem lt_of_map_getElem? {ks : List ℕ} (h : ks.map (vs[·]?) = ws.map some) :
    ∀ k ∈ ks, k < vs.length := by
  intro k hk
  have hmem : vs[k]? ∈ ws.map some := h ▸ List.mem_map_of_mem hk
  obtain ⟨w, -, hw⟩ := List.mem_map.mp hmem
  exact (List.getElem?_eq_some_iff.mp hw.symm).1

theorem Onward.append_right (h : Onward ws vs) : Onward ws (vs ++ vs') := by
  obtain ⟨ks, hks, hmap⟩ := h
  refine ⟨ks, hks, hmap ▸ List.map_congr_left fun k hk => ?_⟩
  exact List.getElem?_append_left (lt_of_map_getElem? hmap k hk)

/-- The last of `vs` may always come next. -/
theorem Onward.concat (h : Onward ws (vs ++ [v])) : Onward (ws ++ [v]) (vs ++ [v]) := by
  obtain ⟨ks, hks, hmap⟩ := h
  refine ⟨ks ++ [vs.length], List.pairwise_append.mpr ⟨hks, List.pairwise_singleton _ _, ?_⟩, ?_⟩
  · intro k hk l hl
    obtain rfl := List.mem_singleton.mp hl
    have hlt := lt_of_map_getElem? hmap k hk
    rw [List.length_append, List.length_singleton] at hlt
    exact Nat.le_of_lt_succ hlt
  · rw [List.map_append, hmap, List.map_append, List.map_singleton, List.getElem?_concat_length]
    rfl

end Onward

/-- What was told since the last connection ended. -/
def latest (ws : List (Option ν)) : List ν :=
  ws.foldl (fun vs w => match w with
    | some v => vs ++ [v]
    | none => []) []

theorem latest_concat_some (v : ν) : latest (ws ++ [some v]) = latest ws ++ [v] :=
  List.foldl_concat ..

theorem latest_concat_none : latest (ws ++ [none]) = [] := List.foldl_concat ..

/-- `said` is what the source has said and `told` what the copy was told.  What
is on its way continues what the copy was told since it is connected. -/
structure Relay.Follows (said : List ν) (told : List (Option ν)) (r : Relay ν) : Prop where
  unasked : r.down = none → latest told = []
  down : ∀ xs, r.down = some xs → latest told ++ writes xs ++ writes r.up <:+ said
  order : ∃ past, said = past ++ r.hub :: writes r.up ∧
    Onward (told.reduceOption ++ writes (r.down.getD [])) (past ++ [r.hub])

/-- **The step lemma.** -/
theorem Relay.Step.follows (h : Step r vs ws r') (hf : r.Follows said told) :
    r'.Follows (said ++ vs) (told ++ ws) := by
  obtain ⟨hunasked, hdown, past, rfl, horder⟩ := hf
  cases h with
  | change v =>
      rw [List.append_nil]
      refine ⟨hunasked, fun xs hxs => ?_, past, ?_, horder⟩
      · rw [writes_append, ← List.append_assoc]
        exact List.suffix_append_self_iff.mpr (hdown xs hxs)
      · rw [writes_append, List.append_assoc]
        rfl
  | ack =>
      simp only [List.append_nil]
      refine ⟨hunasked, fun xs hxs => ?_, past, ?_, horder⟩
      · simpa [Signal.written] using hdown xs hxs
      · simp [Signal.written]
  | @pass p x us h d c =>
      simp only [List.append_nil]
      refine ⟨fun hd => hunasked (Option.map_eq_none_iff.mp hd), fun xs hxs => ?_, ?_⟩
      · obtain ⟨d, hd, rfl⟩ := Option.map_eq_some_iff.mp hxs
        simpa using hdown d hd
      · cases x with
        | write w =>
            -- what the hub had is past
            refine ⟨past ++ [h], by simp [Signal.written, Signal.apply], ?_⟩
            cases d with
            | none => exact horder.append_right
            | some d => simpa [Signal.written, Signal.apply] using horder.append_right.concat
        | ack w =>
            refine ⟨past, rfl, ?_⟩
            cases d with
            | none => exact horder
            | some d => simpa [Signal.written, Signal.apply] using horder
  | @agree p us h =>
      simp only [List.append_nil]
      refine ⟨nofun, fun xs hxs => ?_, past, rfl, horder⟩
      obtain rfl := Option.some.inj hxs
      rw [hunasked rfl]
      exact ⟨past ++ [h], by simp⟩
  | @announce p us h c =>
      simp only [List.append_nil]
      refine ⟨nofun, fun xs hxs => ?_, past, rfl, ?_⟩
      · obtain rfl := Option.some.inj hxs
        rw [hunasked rfl]
        exact ⟨past, by simp [Signal.written]⟩
      · -- the same value may be told once more
        simpa [Signal.written] using horder.concat
  | @receive p us h x d c =>
      rw [List.append_nil]
      have hdown := hdown _ rfl
      refine ⟨nofun, fun xs hxs => ?_, past, rfl, ?_⟩
      · obtain rfl := Option.some.inj hxs
        cases x with
        | write w => simpa [Signal.written, latest_concat_some] using hdown
        | ack w => simpa [Signal.written] using hdown
      · cases x with
        | write w => simpa [Signal.written, List.reduceOption_append] using horder
        | ack w => simpa [Signal.written] using horder
  | cut =>
      -- what was on its way to the copy is skipped, and nothing else changes
      rw [List.append_nil]
      refine ⟨fun _ => latest_concat_none, nofun, past, by rw [writes_filter], ?_⟩
      simpa [List.reduceOption_append] using horder.of_append

theorem Relay.Follows.path (hf : r.Follows said told) (h : Path r vs ws r') :
    r'.Follows (said ++ vs) (told ++ ws) := by
  induction h with
  | refl => simpa using hf
  | tail _ hstep ih => simpa using hstep.follows ih

end Relays
