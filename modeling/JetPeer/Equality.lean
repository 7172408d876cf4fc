/-
JetPeer/Equality.lean

jsoncpp's `Value::operator==`: two values are equal if their types and what
is in them are.  A number has one of three types, so `1` and `1u` are not
equal.

It decides the equality of the model.
-/
import JetPeer.Json

namespace JetPeer

mutual

def Json.equals : Json → Json → Bool
  | .null, .null => true
  | .bool a, .bool b => a == b
  | .int a, .int b => a == b
  | .uint a, .uint b => a == b
  | .real a, .real b => a == b
  | .string a, .string b => a == b
  | .array xs, .array ys => equalElements xs ys
  | .object xs, .object ys => equalMembers xs ys
  | _, _ => false

def equalElements : List Json → List Json → Bool
  | [], [] => true
  | x :: xs, y :: ys => x.equals y && equalElements xs ys
  | _, _ => false

def equalMembers : List (String × Json) → List (String × Json) → Bool
  | [], [] => true
  | (k, x) :: xs, (l, y) :: ys => k == l && x.equals y && equalMembers xs ys
  | _, _ => false

end

mutual

theorem Json.eq_of_equals : ∀ {a b : Json}, a.equals b = true → a = b
  | .null, b, h | .bool _, b, h | .int _, b, h | .uint _, b, h | .real _, b, h
  | .string _, b, h => by cases b <;> simp_all [Json.equals]
  | .array xs, b, h => by
      cases b with
      | array ys => rw [@eq_of_equalElements xs ys (by simpa [Json.equals] using h)]
      | _ => simp [Json.equals] at h
  | .object xs, b, h => by
      cases b with
      | object ys => rw [@eq_of_equalMembers xs ys (by simpa [Json.equals] using h)]
      | _ => simp [Json.equals] at h

theorem eq_of_equalElements : ∀ {xs ys : List Json}, equalElements xs ys = true → xs = ys
  | [], [], _ => rfl
  | x :: xs, y :: ys, h => by
      simp only [equalElements, Bool.and_eq_true] at h
      rw [Json.eq_of_equals h.1, eq_of_equalElements h.2]
  | [], _ :: _, h | _ :: _, [], h => by simp [equalElements] at h

theorem eq_of_equalMembers :
    ∀ {xs ys : List (String × Json)}, equalMembers xs ys = true → xs = ys
  | [], [], _ => rfl
  | (k, x) :: xs, (l, y) :: ys, h => by
      simp only [equalMembers, Bool.and_eq_true, beq_iff_eq] at h
      rw [h.1.1, Json.eq_of_equals h.1.2, eq_of_equalMembers h.2]
  | [], _ :: _, h | _ :: _, [], h => by simp [equalMembers] at h

end

mutual

theorem Json.equals_self : ∀ a : Json, a.equals a = true
  | .null => rfl
  | .bool _ | .int _ | .uint _ | .real _ | .string _ => by simp [Json.equals]
  | .array xs => by simpa [Json.equals] using equalElements_self xs
  | .object xs => by simpa [Json.equals] using equalMembers_self xs

theorem equalElements_self : ∀ xs : List Json, equalElements xs xs = true
  | [] => rfl
  | x :: xs => by simp [equalElements, Json.equals_self x, equalElements_self xs]

theorem equalMembers_self : ∀ xs : List (String × Json), equalMembers xs xs = true
  | [] => rfl
  | (k, x) :: xs => by simp [equalMembers, Json.equals_self x, equalMembers_self xs]

end

instance : DecidableEq Json := fun a b =>
  decidable_of_iff (a.equals b = true)
    ⟨Json.eq_of_equals, fun h => h ▸ Json.equals_self a⟩

end JetPeer
