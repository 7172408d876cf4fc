/-
JetPeer/Json.lean

The part of `Json::Value` (jsoncpp 1.9.3, `CMakeLists.txt`) the peer rests on.

A value is one of jsoncpp's eight types; the two integer types are kept apart
because `PeerAsync::handleMessage` switches on `type()`.  Objects are ordered
maps in jsoncpp, so members are inserted in key order and a document does not
depend on the order its members were written in.

Three accessors throw `Json::LogicError`, and which ones do is all that
decides how a malformed telegram travels through the peer:

* `operator[](key) const` on anything but null and objects (`at`);
* `asInt`, `asUInt` on strings, containers and numbers out of range;
* `asString` on containers.

The mutable `operator[]` builds documents, starting from null; there it is
`set`.  Where it only reads, it throws and yields what `at` does.
-/
import Mathlib.Data.Rat.Floor
import Mathlib.Data.String.Basic

namespace JetPeer

/-- `Json::Value`. -/
inductive Json where
  | null
  | bool (b : Bool)
  | int (n : Int)
  | uint (n : Nat)
  | real (r : ℚ)
  | string (s : String)
  | array (xs : List Json)
  | object (ms : List (String × Json))
  deriving Inhabited

/-- `Json::LogicError`, by the assertion that raises it. -/
inductive LogicError where
  | notAnObject
  | notConvertible
  | outOfRange
  deriving DecidableEq

/-- A computation that ends well does so in all its parts. -/
theorem bind_eq_ok {ε α β : Type*} {x : Except ε α} {f : α → Except ε β} {b : β} :
    x.bind f = .ok b ↔ ∃ a, x = .ok a ∧ f a = .ok b := by
  cases x <;> simp [Except.bind]

theorem map_eq_ok {ε α β : Type*} {x : Except ε α} {f : α → β} {b : β} :
    x.map f = .ok b ↔ ∃ a, x = .ok a ∧ f a = b := by
  cases x <;> simp [Except.map]

/-- `Value::minInt`, `Value::maxInt`, `Value::maxUInt`. -/
def minInt : Int := -2147483648
def maxInt : Int := 2147483647
def maxUInt : Int := 4294967295

namespace Json

/-- `isNull()`; the conversion to `bool` is its negation. -/
def isNull : Json → Bool
  | null => true
  | _ => false

/-! ### Reading members -/

/-- `operator[](key) const`: the member, the null singleton where there is
none, an exception on values that have no members at all. -/
def «at» (v : Json) (key : String) : Except LogicError Json :=
  match v with
  | null => .ok null
  | object ms => .ok ((ms.lookup key).getD null)
  | _ => .error .notAnObject

/-- The member under `key`, null where there is none. -/
def member (v : Json) (key : String) : Json :=
  match v with
  | object ms => (ms.lookup key).getD null
  | _ => null

/-- `isMember(key)` on null and objects, the only values the peer asks. -/
def isMember (v : Json) (key : String) : Bool :=
  match v with
  | object ms => (ms.lookup key).isSome
  | _ => false

/-! ### Reading numbers -/

/-- Truncation towards zero, the conversion from `double`. -/
def truncate (r : ℚ) : Int := if r < 0 then ⌈r⌉ else ⌊r⌋

/-- The value as an integer in `lo..hi`: `asInt` and `asUInt` differ in their
bounds only. -/
def asIntIn (lo hi : Int) : Json → Except LogicError Int
  | int n => if lo ≤ n ∧ n ≤ hi then .ok n else .error .outOfRange
  | uint n => if (n : Int) ≤ hi then .ok n else .error .outOfRange
  | real r => if (lo : ℚ) ≤ r ∧ r ≤ hi then .ok (truncate r) else .error .outOfRange
  | null => .ok 0
  | bool b => .ok (if b then 1 else 0)
  | _ => .error .notConvertible

/-- `asInt()`. -/
def asInt (v : Json) : Except LogicError Int := asIntIn minInt maxInt v

/-- `asUInt()`. -/
def asUInt (v : Json) : Except LogicError UInt32 :=
  (asIntIn 0 maxUInt v).map fun n => UInt32.ofNat n.toNat

/-- `isInt()`: a number without a fraction that fits. -/
def isInt : Json → Bool
  | int n => minInt ≤ n ∧ n ≤ maxInt
  | uint n => (n : Int) ≤ maxInt
  | real r => (minInt : ℚ) ≤ r ∧ r ≤ maxInt ∧ r.isInt
  | _ => false

/-! ### Reading strings and elements -/

/-- `asString()`.  Of a real it only matters that it has a text. -/
def asString : Json → Except LogicError String
  | null => .ok ""
  | bool b => .ok (if b then "true" else "false")
  | int n => .ok (toString n)
  | uint n => .ok (toString n)
  | real r => .ok (toString (truncate r) ++ ".0")
  | string s => .ok s
  | _ => .error .notConvertible

/-- What `begin()` to `end()` runs through, with `key().asString()`.  Values
that are no containers have nothing to run through. -/
def iterate : Json → List (String × Json)
  | array xs => xs.zipIdx.map fun x => (toString x.2, x.1)
  | object ms => ms
  | _ => []

/-! ### Building documents -/

/-- Write a member, keeping the members in key order. -/
def insertMember (key : String) (x : Json) :
    List (String × Json) → List (String × Json)
  | [] => [(key, x)]
  | (k, y) :: ms =>
      if key = k then (key, x) :: ms
      else if key < k then (key, x) :: (k, y) :: ms
      else (k, y) :: insertMember key x ms

/-- `v[key] = x`; a null value becomes an object first. -/
def set (v : Json) (key : String) (x : Json) : Json :=
  match v with
  | object ms => object (insertMember key x ms)
  | _ => object [(key, x)]

/-- `v[key].f`, the nested write `v[key][inner] = x`. -/
def modify (v : Json) (key : String) (f : Json → Json) : Json :=
  v.set key (f (v.member key))

@[simp] theorem member_null (key : String) : null.member key = null := (rfl)

/-- A member that is not there is null. -/
theorem member_eq_null {v : Json} {key : String} (h : v.isMember key = false) :
    v.member key = null := by
  cases v with
  | object ms =>
      have hnone : ms.lookup key = none := by simpa [isMember] using h
      simp only [member, hnone, Option.getD_none]
  | _ => rfl

/-! ### Members of built documents -/

theorem lookup_insertMember_self (key : String) (x : Json) :
    ∀ ms, (insertMember key x ms).lookup key = some x
  | [] => by simp [insertMember]
  | (k, y) :: ms => by
      unfold insertMember
      split_ifs with h₁ h₂
      · simp
      · simp
      · have hb : (key == k) = false := by simpa using h₁
        rw [List.lookup_cons, hb]
        exact lookup_insertMember_self key x ms

theorem lookup_insertMember_of_ne {key k : String} (x : Json) (h : k ≠ key) :
    ∀ ms, (insertMember key x ms).lookup k = ms.lookup k := by
  have hb : (k == key) = false := by simpa using h
  intro ms
  induction ms with
  | nil => simp [insertMember, List.lookup_cons, hb]
  | cons m ms ih =>
      obtain ⟨k', y⟩ := m
      unfold insertMember
      split_ifs with h₁ h₂
      · subst h₁; simp [List.lookup_cons, hb]
      · simp [List.lookup_cons, hb]
      · simp [List.lookup_cons, ih]

/-- A written member is the new one or one of the old. -/
theorem eq_or_mem_of_mem_insertMember {key : String} {x : Json} {m : String × Json} :
    ∀ {ms : List (String × Json)}, m ∈ insertMember key x ms → m = (key, x) ∨ m ∈ ms
  | [], h => .inl (List.mem_singleton.mp h)
  | (k, y) :: ms, h => by
      unfold insertMember at h
      split_ifs at h
      · rcases List.mem_cons.mp h with rfl | h
        · exact .inl rfl
        · exact .inr (List.mem_cons_of_mem _ h)
      · exact List.mem_cons.mp h
      · rcases List.mem_cons.mp h with rfl | h
        · exact .inr List.mem_cons_self
        · exact (eq_or_mem_of_mem_insertMember h).imp_right (List.mem_cons_of_mem _)

/-- The members stay in key order. -/
theorem sorted_insertMember {key : String} {x : Json} : ∀ {ms : List (String × Json)},
    (ms.map Prod.fst).Pairwise (· < ·) →
      ((insertMember key x ms).map Prod.fst).Pairwise (· < ·)
  | [], _ => List.pairwise_singleton _ _
  | (k, y) :: ms, h => by
      obtain ⟨hk, hms⟩ := List.pairwise_cons.mp h
      unfold insertMember
      split_ifs with heq hlt
      · subst heq
        exact h
      · refine List.pairwise_cons.mpr ⟨?_, h⟩
        intro k' hk'
        rcases List.mem_cons.mp hk' with rfl | hk'
        · exact hlt
        · exact hlt.trans (hk k' hk')
      · refine List.pairwise_cons.mpr ⟨?_, sorted_insertMember hms⟩
        intro k' hk'
        obtain ⟨m, hm, rfl⟩ := List.mem_map.mp hk'
        rcases eq_or_mem_of_mem_insertMember hm with rfl | hm
        · exact lt_of_le_of_ne (not_lt.mp hlt) (Ne.symm heq)
        · exact hk _ (List.mem_map_of_mem hm)

@[simp] theorem member_set_self (v : Json) (key : String) (x : Json) :
    (v.set key x).member key = x := by
  cases v <;> simp [set, member, lookup_insertMember_self]

theorem member_set_of_ne {v : Json} {key k : String} (x : Json) (h : k ≠ key) :
    (v.set key x).member k = v.member k := by
  have hb : (k == key) = false := by simpa using h
  cases v <;> simp [set, member, lookup_insertMember_of_ne, List.lookup_cons, h, hb]

@[simp] theorem isMember_set_self (v : Json) (key : String) (x : Json) :
    (v.set key x).isMember key = true := by
  cases v <;> simp [set, isMember, lookup_insertMember_self]

theorem isMember_set_of_ne {v : Json} {key k : String} (x : Json) (h : k ≠ key) :
    (v.set key x).isMember k = v.isMember k := by
  have hb : (k == key) = false := by simpa using h
  cases v <;> simp [set, isMember, lookup_insertMember_of_ne, List.lookup_cons, h, hb]

@[simp] theorem at_set (v : Json) (key k : String) (x : Json) :
    (v.set key x).at k = .ok ((v.set key x).member k) := by
  cases v <;> rfl

theorem insertMember_insertMember (key : String) (x y : Json) :
    ∀ ms, insertMember key y (insertMember key x ms) = insertMember key y ms
  | [] => by simp [insertMember]
  | (k, z) :: ms => by
      simp only [insertMember]
      split_ifs with h₁ h₂
      · simp [insertMember]
      · simp [insertMember]
      · simp [insertMember, h₁, h₂, insertMember_insertMember key x y ms]

/-- A member written twice has the last value. -/
theorem set_set (v : Json) (key : String) (x y : Json) : (v.set key x).set key y = v.set key y := by
  cases v <;> simp [set, insertMember, insertMember_insertMember]

/-- A built document is an object. -/
theorem set_eq_object (v : Json) (key : String) (x : Json) :
    ∃ ms, v.set key x = object ms := by
  cases v <;> exact ⟨_, rfl⟩

/-- An id the peer writes is read back unchanged. -/
@[simp] theorem asUInt_uint_toNat (i : UInt32) : (uint i.toNat).asUInt = .ok i := by
  have hi : (i.toNat : Int) ≤ maxUInt := by
    have := i.toNat_lt
    simp only [maxUInt]
    omega
  simp [asUInt, asIntIn, hi, Except.map]

end Json

end JetPeer
