/-
JetPeer/Matchers.lean

What a daemon can read out of the params of a fetch.

`addPathInformation` writes up to seven members one by one, each of them left
out if it is empty, and creates the object they stand in with the first one.
Seen from the outside it only puts one member into the params:

    addPathInformation params m = withPath params (pathObject m)

with nothing put in for the matcher that matches all.  `pathObject` is read
back member by member by `decodeMatcher`, so a matcher is what its params say
(`addPathInformation_faithful`), in a fetch, a get and a restored fetch.
-/
import JetPeer.Exceptions
import JetPeer.Registration

namespace JetPeer

/-! ### The path object -/

/-- A member that is left out if it is empty. -/
def writeString (key s : String) (p : Json) : Json :=
  if s ≠ "" then p.set key (.string s) else p

def writeElements (key : String) (xs : List String) (p : Json) : Json :=
  xs.foldl (fun p s => p.modify key fun v => appendElement v (.string s)) p

def writeFlag (key : String) (b : Bool) (p : Json) : Json :=
  if b then p.set key (.bool true) else p

/-- The object under `path`, null for the matcher that matches all. -/
def pathObject (m : Matcher) : Json :=
  let p := writeString Word.contains m.contains .null
  let p := writeString Word.startsWith m.startsWith p
  let p := writeString Word.endsWith m.endsWith p
  let p := writeString Word.equals m.equals p
  let p := writeString Word.equalsNot m.equalsNot p
  let p := writeElements Word.containsAllOf m.containsAllOf p
  writeFlag Word.caseInsensitive m.caseInsensitive p

/-- `params` with the member `path`, unless it is null. -/
def withPath (params p : Json) : Json :=
  if p.isNull then params else params.set Word.path p

/-! ### One write inside the params is one write outside -/

section Writing

variable {params p : Json}

@[simp] theorem isNull_set (v : Json) (key : String) (x : Json) : (v.set key x).isNull = false := by
  cases v <;> rfl

theorem eq_null_of_isNull {v : Json} (h : v.isNull = true) : v = .null := by
  cases v <;> first | rfl | cases h

/-- The member `path` of params that had none. -/
theorem member_withPath (hpath : params.isMember Word.path = false) :
    (withPath params p).member Word.path = p := by
  rcases hp : p.isNull with - | -
  · simp [withPath, hp]
  · rw [eq_null_of_isNull hp]
    exact Json.member_eq_null hpath

/-- A write to the path object, in place. -/
theorem modify_withPath (hpath : params.isMember Word.path = false) {f : Json → Json}
    (hf : (f p).isNull = false) :
    (withPath params p).modify Word.path f = withPath params (f p) := by
  rw [Json.modify, member_withPath hpath]
  rcases hp : p.isNull with - | -
  · simp [withPath, hp, hf, Json.set_set]
  · simp [withPath, hp, hf]

theorem addPathString_withPath (hpath : params.isMember Word.path = false) (key s : String) :
    addPathString key s (withPath params p) = withPath params (writeString key s p) := by
  unfold addPathString writeString
  split_ifs
  · exact modify_withPath hpath (isNull_set _ _ _)
  · rfl

theorem addElements_withPath (hpath : params.isMember Word.path = false) (key : String)
    (xs : List String) :
    xs.foldl (fun params s => params.modify Word.path fun p =>
      p.modify key fun v => appendElement v (.string s)) (withPath params p)
      = withPath params (writeElements key xs p) := by
  induction xs generalizing p with
  | nil => rfl
  | cons x xs ih =>
      have hx : (withPath params p).modify Word.path
          (fun p => p.modify key fun v => appendElement v (.string x))
          = withPath params (p.modify key fun v => appendElement v (.string x)) :=
        modify_withPath hpath (isNull_set _ _ _)
      rw [List.foldl_cons, hx]
      exact ih

/-- **All that `addPathInformation` does** is to put the path object in. -/
theorem addPathInformation_eq (hpath : params.isMember Word.path = false) (m : Matcher) :
    addPathInformation params m = withPath params (pathObject m) := by
  have hnull : params = withPath params .null := rfl
  rw [addPathInformation, pathObject]
  conv_lhs => rw [hnull]
  simp only [addPathString_withPath hpath, addElements_withPath hpath]
  unfold writeFlag
  split_ifs
  · exact modify_withPath hpath (isNull_set _ _ _)
  · rfl

end Writing

/-! ### Reading the path object -/

/-- The text of a string. -/
def stringOf : Json → String
  | .string s => s
  | _ => ""

def elements : Json → List Json
  | .array xs => xs
  | _ => []

def flagOf : Json → Bool
  | .bool b => b
  | _ => false

/-- The matcher a path object stands for. -/
def decodePath (p : Json) : Matcher where
  caseInsensitive := flagOf (p.member Word.caseInsensitive)
  contains := stringOf (p.member Word.contains)
  startsWith := stringOf (p.member Word.startsWith)
  endsWith := stringOf (p.member Word.endsWith)
  equals := stringOf (p.member Word.equals)
  equalsNot := stringOf (p.member Word.equalsNot)
  containsAllOf := (elements (p.member Word.containsAllOf)).map stringOf

/-- The matcher in the params of a fetch. -/
def decodeMatcher (params : Json) : Matcher := decodePath (params.member Word.path)

section Reading

variable {p : Json} {key k s : String}

theorem stringOf_writeString (h : p.member key = .null) :
    stringOf ((writeString key s p).member key) = s := by
  unfold writeString
  split_ifs with hs
  · rw [Json.member_set_self]
    rfl
  · -- nothing is written, and nothing is what an empty string is read from
    rw [h, not_ne_iff.mp hs]
    rfl

theorem member_writeString_of_ne (h : k ≠ key) :
    (writeString key s p).member k = p.member k := by
  unfold writeString
  split_ifs
  · exact Json.member_set_of_ne _ h
  · rfl

@[simp] theorem elements_null : elements .null = [] := rfl

theorem map_stringOf (xs : List String) : xs.map (stringOf ∘ Json.string) = xs := List.map_id xs

theorem elements_appendElement (v x : Json) : elements (appendElement v x) = elements v ++ [x] := by
  cases v <;> rfl

/-- The list grows at its end, one element a round. -/
theorem elements_writeElements (xs : List String) :
    elements ((writeElements key xs p).member key) = elements (p.member key) ++ xs.map .string := by
  induction xs generalizing p with
  | nil => exact (List.append_nil _).symm
  | cons x xs ih =>
      show elements ((writeElements key xs (p.modify key _)).member key) = _
      rw [ih, Json.modify, Json.member_set_self, elements_appendElement, List.append_assoc]
      rfl

theorem member_writeElements_of_ne (xs : List String) (h : k ≠ key) :
    (writeElements key xs p).member k = p.member k := by
  induction xs generalizing p with
  | nil => rfl
  | cons x xs ih =>
      show (writeElements key xs (p.modify key _)).member k = _
      rw [ih, Json.modify, Json.member_set_of_ne _ h]

theorem flagOf_writeFlag {b : Bool} (h : p.member key = .null) :
    flagOf ((writeFlag key b p).member key) = b := by
  cases b with
  | false =>
      show flagOf (p.member key) = false
      rw [h]
      rfl
  | true =>
      show flagOf ((p.set key _).member key) = true
      rw [Json.member_set_self]
      rfl

theorem member_writeFlag_of_ne {b : Bool} (h : k ≠ key) :
    (writeFlag key b p).member k = p.member k := by
  cases b with
  | false => rfl
  | true => exact Json.member_set_of_ne _ h

end Reading

/-- A path object is read back. -/
theorem decodePath_pathObject (m : Matcher) : decodePath (pathObject m) = m := by
  cases m with
  | mk caseInsensitive contains startsWith endsWith equals equalsNot containsAllOf =>
      -- each member is behind the writes that came after it
      simp [decodePath, pathObject, member_writeFlag_of_ne, member_writeElements_of_ne,
        member_writeString_of_ne, flagOf_writeFlag, elements_writeElements, stringOf_writeString,
        map_stringOf]

/-- The list arrives in its order, with all its repetitions. -/
theorem elements_pathObject (m : Matcher) :
    elements ((pathObject m).member Word.containsAllOf) = m.containsAllOf.map .string := by
  simp [pathObject, member_writeFlag_of_ne, member_writeString_of_ne, elements_writeElements]

/-- The path object is null for one matcher only. -/
theorem pathObject_eq_null_iff {m : Matcher} : pathObject m = .null ↔ m = {} := by
  constructor
  · intro h
    rw [← decodePath_pathObject m, h]
    rfl
  · rintro rfl
    rfl

/-- Whatever is written makes an object. -/
theorem hasMembers_pathObject (m : Matcher) : HasMembers (pathObject m) := by
  have hset : ∀ (v : Json) key x, HasMembers (v.set key x) := fun v key x =>
    .inr (Json.set_eq_object v key x)
  have hstring : ∀ {p : Json} key s, HasMembers p → HasMembers (writeString key s p) := by
    intro p key s hp
    unfold writeString
    split_ifs
    · exact hset _ _ _
    · exact hp
  have helements : ∀ {p : Json} key xs, HasMembers p → HasMembers (writeElements key xs p) := by
    intro p key xs hp
    induction xs generalizing p with
    | nil => exact hp
    | cons x xs ih => exact ih (hset _ _ _)
  have hflag : ∀ {p : Json} key b, HasMembers p → HasMembers (writeFlag key b p) := by
    intro p key b hp
    cases b with
    | false => exact hp
    | true => exact hset _ _ _
  unfold pathObject
  apply hflag
  apply helements
  iterate 5 apply hstring
  exact .inl rfl

/-! ### What is transmitted -/

/-- `doc` is `params` with a path object that says what `m` is. -/
structure Transmits (params : Json) (m : Matcher) (doc : Json) : Prop where
  others : ∀ k ≠ Word.path,
    doc.member k = params.member k ∧ doc.isMember k = params.isMember k
  decoded : decodeMatcher doc = m
  list : elements ((doc.member Word.path).member Word.containsAllOf)
    = m.containsAllOf.map .string
  absent : doc.isMember Word.path = false ↔ m = {}
  object : m ≠ {} → ∃ ms, doc.member Word.path = .object ms

theorem transmits_addPathInformation {params : Json} (hpath : params.isMember Word.path = false)
    (m : Matcher) : Transmits params m (addPathInformation params m) := by
  have hmember : (addPathInformation params m).member Word.path = pathObject m := by
    rw [addPathInformation_eq hpath, member_withPath hpath]
  refine ⟨fun k hk => ?_, ?_, ?_, ?_, fun hm => ?_⟩
  · rw [addPathInformation_eq hpath, withPath]
    split_ifs
    · exact ⟨rfl, rfl⟩
    · exact ⟨Json.member_set_of_ne _ hk, Json.isMember_set_of_ne _ hk⟩
  · rw [decodeMatcher, hmember, decodePath_pathObject]
  · rw [hmember]
    exact elements_pathObject m
  · rw [← pathObject_eq_null_iff, addPathInformation_eq hpath, withPath]
    split_ifs with hp
    · exact iff_of_true hpath (eq_null_of_isNull hp)
    · rw [Json.isMember_set_self]
      refine iff_of_false (by decide) fun h => hp ?_
      rw [h]
      rfl
  · rw [hmember]
    exact (hasMembers_pathObject m).resolve_left fun h => hm (pathObject_eq_null_iff.mp h)

/-- **Matchers are transmitted faithfully**: the params say which matcher was
meant and are otherwise as they were, and no other matcher makes the same
params, whatever it is added to. -/
theorem addPathInformation_faithful {params : Json}
    (hpath : params.isMember Word.path = false) (m : Matcher) :
    Transmits params m (addPathInformation params m) ∧
      ∀ params' m', params'.isMember Word.path = false →
        addPathInformation params m = addPathInformation params' m' → m = m' := by
  refine ⟨transmits_addPathInformation hpath m, fun params' m' hpath' heq => ?_⟩
  rw [← (transmits_addPathInformation hpath m).decoded, heq]
  exact (transmits_addPathInformation hpath' m').decoded

/-- A matcher with every member, added to the params of a fetch. -/
theorem addPathInformation_faithful_full :
    Transmits (Json.null.set Jsonrpc.id (.int 7))
      ⟨true, "a", "b", "c", "d", "e", ["", "b", ""]⟩
      (addPathInformation (Json.null.set Jsonrpc.id (.int 7))
        ⟨true, "a", "b", "c", "d", "e", ["", "b", ""]⟩) :=
  (addPathInformation_faithful (by decide) _).1

/-! ### Fetches -/

/-- The params of a fetch say its id and its matcher. -/
theorem addFetchParams_injective {m m' : Matcher} {fetchId fetchId' : FetchId}
    (h : addFetchParams m fetchId = addFetchParams m' fetchId') : m = m' ∧ fetchId = fetchId' := by
  have hpath : ∀ i : FetchId, (Json.null.set Jsonrpc.id (.int i)).isMember Word.path = false :=
    fun _ => rfl
  have hid : ∀ m (i : FetchId), (addFetchParams m i).member Jsonrpc.id = .int i := fun m i =>
    ((transmits_addPathInformation (hpath i) m).others Jsonrpc.id (by decide)).1.trans
      (Json.member_set_self _ _ _)
  constructor
  · rw [← (transmits_addPathInformation (hpath fetchId) m).decoded]
    rw [← (transmits_addPathInformation (hpath fetchId') m').decoded]
    exact congrArg decodeMatcher h
  · have hint := (hid m fetchId).symm.trans ((congrArg (Json.member · Jsonrpc.id) h).trans
      (hid m' fetchId'))
    exact Json.int.inj hint

/-- A restored fetch asks for what the fetch asked for. -/
theorem decodeMatcher_restoreFetchParams (m : Matcher) (fetchId : FetchId) :
    decodeMatcher (restoreFetchParams m fetchId) = m :=
  (transmits_addPathInformation rfl m).decoded

end JetPeer
