/-
JetPeer/Exceptions.lean

`lib/jsoncpprpc_exception.cpp`: the four constructors of `jsoncpprpcException`
and what is read back from it.

A constructor that reads a response and `dataEntries` use accessors that may
throw.  Both are `noexcept`, so what is an error here ends the process there.
Everything else only builds.

Two round trips make up the way of an error from the owner of a state to the
one who set it:

    ofResponse e.json = e                       (`ofResponse_json`)
    dataEntries (ofDataEntries entries) = entries   (`lookup_dataEntries`)

The first needs of an exception only that its code is an `int`; so does the
second of each entry.
-/
import JetPeer.Defines

namespace JetPeer

/-! ### What converts -/

/-- Null and objects have members. -/
def HasMembers (v : Json) : Prop := v = .null ∨ ∃ ms, v = .object ms

/-- An `int`, as C++ has it. -/
def IsInt (n : Int) : Prop := minInt ≤ n ∧ n ≤ maxInt

instance (n : Int) : Decidable (IsInt n) := inferInstanceAs (Decidable (_ ∧ _))

/-- `asInt` reads null, booleans, and numbers in the range of `int`. -/
def ConvertsToInt : Json → Prop
  | .null | .bool _ => True
  | .int n => IsInt n
  | .uint n => (n : Int) ≤ maxInt
  | .real r => (minInt : ℚ) ≤ r ∧ r ≤ maxInt
  | _ => False

/-- `asString` reads everything but containers. -/
def ConvertsToString : Json → Prop
  | .array _ | .object _ => False
  | _ => True

/-- `v[CODE].asInt()` and `v[MESSAGE].asString()` return. -/
def ReadableError (v : Json) : Prop :=
  HasMembers v ∧ ConvertsToInt (v.member Jsonrpc.code) ∧
    ConvertsToString (v.member Jsonrpc.message)

section Reading

variable {v : Json}

theorem at_eq_ok_iff (key : String) : (∃ x, v.at key = .ok x) ↔ HasMembers v := by
  constructor
  · rintro ⟨x, hx⟩
    cases v with
    | null => exact .inl rfl
    | object ms => exact .inr ⟨ms, rfl⟩
    | _ => cases hx
  · rintro (rfl | ⟨ms, rfl⟩)
    · exact ⟨_, rfl⟩
    · exact ⟨_, rfl⟩

/-- Where `at` returns, it returns the member. -/
theorem eq_member_of_at {key : String} {x : Json} (h : v.at key = .ok x) : x = v.member key := by
  cases v <;> cases h <;> rfl

theorem HasMembers.at_eq (h : HasMembers v) (key : String) : v.at key = .ok (v.member key) := by
  obtain ⟨x, hx⟩ := (at_eq_ok_iff key).mpr h
  rw [hx, eq_member_of_at hx]

/-- A test in front of a result that is always there. -/
theorem ite_eq_ok {ε α : Type*} {p : Prop} [Decidable p] {a b : α} {e : ε} :
    (if p then Except.ok a else .error e) = .ok b ↔ p ∧ a = b := by
  split_ifs with h <;> simp [h]

theorem ite_eq_ok_iff {ε α : Type*} {p : Prop} [Decidable p] {a : α} {e : ε} :
    (∃ x, (if p then Except.ok a else .error e) = .ok x) ↔ p := by
  simp only [ite_eq_ok, exists_and_left, exists_eq', and_true]

theorem asInt_eq_ok_iff : (∃ n, v.asInt = .ok n) ↔ ConvertsToInt v := by
  cases v with
  | int n => exact ite_eq_ok_iff
  | uint n => exact ite_eq_ok_iff
  | real r => exact ite_eq_ok_iff
  | null => exact ⟨fun _ => trivial, fun _ => ⟨0, rfl⟩⟩
  | bool b => exact ⟨fun _ => trivial, fun _ => ⟨_, rfl⟩⟩
  | _ => exact ⟨fun ⟨_, h⟩ => (nomatch h), fun h => nomatch h⟩

theorem asString_eq_ok_iff : (∃ s, v.asString = .ok s) ↔ ConvertsToString v := by
  cases v with
  | array xs => exact ⟨fun ⟨_, h⟩ => (nomatch h), fun h => nomatch h⟩
  | object ms => exact ⟨fun ⟨_, h⟩ => (nomatch h), fun h => nomatch h⟩
  | _ => exact ⟨fun _ => trivial, fun _ => ⟨_, rfl⟩⟩

theorem asInt_of_isInt {n : Int} (h : IsInt n) : (Json.int n).asInt = .ok n := if_pos h

end Reading

/-! ### The code and the message of an error -/

/-- `v[CODE].asInt()` and `v[MESSAGE].asString()`. -/
def readError (v : Json) : Except LogicError (Int × String) :=
  ((v.at Jsonrpc.code).bind Json.asInt).bind fun code =>
    ((v.at Jsonrpc.message).bind Json.asString).map fun message => (code, message)

theorem readError_eq_ok {v : Json} {code : Int} {message : String} :
    readError v = .ok (code, message) ↔ HasMembers v ∧
      (v.member Jsonrpc.code).asInt = .ok code ∧
      (v.member Jsonrpc.message).asString = .ok message := by
  simp only [readError, bind_eq_ok, map_eq_ok, Prod.mk.injEq]
  constructor
  · rintro ⟨n, ⟨c, hc, hn⟩, s, ⟨m, hm, hs⟩, rfl, rfl⟩
    rw [eq_member_of_at hc] at hn
    rw [eq_member_of_at hm] at hs
    exact ⟨(at_eq_ok_iff _).mp ⟨c, hc⟩, hn, hs⟩
  · rintro ⟨hmembers, hn, hs⟩
    exact ⟨code, ⟨_, hmembers.at_eq _, hn⟩, message, ⟨_, hmembers.at_eq _, hs⟩, rfl, rfl⟩

theorem readError_eq_ok_iff {v : Json} : (∃ r, readError v = .ok r) ↔ ReadableError v := by
  constructor
  · rintro ⟨⟨code, message⟩, h⟩
    obtain ⟨hmembers, hn, hs⟩ := readError_eq_ok.mp h
    exact ⟨hmembers, asInt_eq_ok_iff.mp ⟨_, hn⟩, asString_eq_ok_iff.mp ⟨_, hs⟩⟩
  · rintro ⟨hmembers, hcode, hmessage⟩
    obtain ⟨n, hn⟩ := asInt_eq_ok_iff.mpr hcode
    obtain ⟨s, hs⟩ := asString_eq_ok_iff.mpr hmessage
    exact ⟨(n, s), readError_eq_ok.mpr ⟨hmembers, hn, hs⟩⟩

namespace JsoncpprpcException

/-! ### Constructors -/

/-- `jsoncpprpcException(const Json::Value& error) noexcept`. -/
def ofResponse (error : Json) : Except LogicError JsoncpprpcException :=
  (error.at Jsonrpc.err).bind fun e =>
    (readError e).bind fun r =>
      (e.at Jsonrpc.data).map fun data => ⟨r.1, r.2, data⟩

/-- `jsoncpprpcException(int code, const std::string& message) noexcept`. -/
def ofCode (code : Int) (message : String) : JsoncpprpcException := ⟨code, message, .null⟩

/-- `jsoncpprpcException(int code, const std::string& message, const Json::Value& data)
noexcept`. -/
def ofCodeData (code : Int) (message : String) (data : Json) : JsoncpprpcException :=
  ⟨code, message, data⟩

structure DataEntry where
  code : Int
  message : String
  deriving DecidableEq

/-- `DataEntries`, by the name of the item. -/
abbrev DataEntries := AList fun _ : String => DataEntry

/-- `item[CODE] = entry.code; item[MESSAGE] = entry.message`. -/
def DataEntry.item (entry : DataEntry) : Json :=
  (Json.null.set Jsonrpc.code (.int entry.code)).set Jsonrpc.message (.string entry.message)

/-- `m_data_obj`, built one entry after the other. -/
def dataObject (entries : List (Sigma fun _ : String => DataEntry)) (obj : Json) : Json :=
  entries.foldl (fun obj e => obj.set e.1 e.2.item) obj

/-- `jsoncpprpcException(DataEntries& data) noexcept`. -/
def ofDataEntries (data : DataEntries) : JsoncpprpcException :=
  ⟨-1, "see data object for details", dataObject data.entries .null⟩

/-- `dataEntries() const noexcept`. -/
def dataEntries (e : JsoncpprpcException) : Except LogicError DataEntries :=
  e.data.iterate.foldlM
    (fun entries m => (readError m.2).map fun r => entries.insert m.1 ⟨r.1, r.2⟩) ∅

/-! ### Reading back a response -/

variable {e : JsoncpprpcException} {doc : Json}

theorem ofResponse_eq_ok : ofResponse doc = .ok e ↔ HasMembers doc ∧
    readError (doc.member Jsonrpc.err) = .ok (e.code, e.message) ∧
      (doc.member Jsonrpc.err).member Jsonrpc.data = e.data := by
  simp only [ofResponse, bind_eq_ok, map_eq_ok]
  constructor
  · rintro ⟨v, hv, ⟨code, message⟩, hr, data, hd, rfl⟩
    rw [eq_member_of_at hv] at hr hd
    exact ⟨(at_eq_ok_iff _).mp ⟨v, hv⟩, hr, (eq_member_of_at hd).symm⟩
  · rintro ⟨hmembers, hr, hd⟩
    have herr : HasMembers (doc.member Jsonrpc.err) := (readError_eq_ok.mp hr).1
    exact ⟨_, hmembers.at_eq _, _, hr, _, herr.at_eq _, by rw [hd]⟩

/-- The constructor returns on readable errors, whatever the data. -/
theorem ofResponse_eq_ok_iff (h : HasMembers doc) :
    (∃ e, ofResponse doc = .ok e) ↔ ReadableError (doc.member Jsonrpc.err) := by
  rw [← readError_eq_ok_iff]
  constructor
  · rintro ⟨e, he⟩
    exact ⟨_, (ofResponse_eq_ok.mp he).2.1⟩
  · rintro ⟨⟨code, message⟩, hr⟩
    exact ⟨⟨code, message, _⟩, ofResponse_eq_ok.mpr ⟨h, hr, rfl⟩⟩

theorem member_err_withError (response : Json) (code : Int) (message : String) :
    (withError response code message).member Jsonrpc.err =
      ((response.member Jsonrpc.err).set Jsonrpc.code (.int code)).set
        Jsonrpc.message (.string message) := by
  simp [withError, Json.modify]

/-- The error member `withError` writes is read back. -/
theorem readError_set {v : Json} {code : Int} (message : String) (hcode : IsInt code) :
    readError ((v.set Jsonrpc.code (.int code)).set Jsonrpc.message (.string message))
      = .ok (code, message) := by
  refine readError_eq_ok.mpr ⟨.inr (Json.set_eq_object _ _ _), ?_, ?_⟩
  · rw [Json.member_set_of_ne _ (by decide), Json.member_set_self]
    exact asInt_of_isInt hcode
  · rw [Json.member_set_self]
    rfl

/-- An error that has no data. -/
theorem ofResponse_withError {response : Json} {code : Int} {message : String}
    (hcode : IsInt code) (hnone : response.member Jsonrpc.err = .null) (hdoc : HasMembers doc)
    (herr : doc.member Jsonrpc.err = (withError response code message).member Jsonrpc.err) :
    ofResponse doc = .ok ⟨code, message, .null⟩ := by
  rw [member_err_withError, hnone] at herr
  refine ofResponse_eq_ok.mpr ⟨hdoc, ?_, ?_⟩
  · rw [herr]
    exact readError_set message hcode
  · rw [herr, Json.member_set_of_ne _ (by decide), Json.member_set_of_ne _ (by decide)]
    rfl

/-- **An exception survives** being written to a response and read again. -/
theorem ofResponse_json (hcode : IsInt e.code) (hdoc : HasMembers doc)
    (herr : doc.member Jsonrpc.err = e.json.member Jsonrpc.err) : ofResponse doc = .ok e := by
  have hjson : e.json.member Jsonrpc.err =
      ((Json.null.set Jsonrpc.code (.int e.code)).set Jsonrpc.message (.string e.message)).set
        Jsonrpc.data e.data := by
    rw [json, Json.modify, Json.member_set_self, member_err_withError]
    rfl
  rw [hjson] at herr
  refine ofResponse_eq_ok.mpr ⟨hdoc, ?_, ?_⟩
  · rw [herr]
    refine readError_eq_ok.mpr ⟨.inr (Json.set_eq_object _ _ _), ?_, ?_⟩
    · rw [Json.member_set_of_ne _ (by decide), Json.member_set_of_ne _ (by decide),
        Json.member_set_self]
      exact asInt_of_isInt hcode
    · rw [Json.member_set_of_ne _ (by decide), Json.member_set_self]
      rfl
  · rw [herr, Json.member_set_self]

/-! ### Reading back the entries -/

/-- One round of `dataEntries`. -/
def addEntry (entries : DataEntries) (m : String × Json) : Except LogicError DataEntries :=
  (readError m.2).map fun r => entries.insert m.1 ⟨r.1, r.2⟩

theorem dataEntries_eq : e.dataEntries = e.data.iterate.foldlM addEntry ∅ := rfl

/-- It returns where all elements are readable, starting with any entries. -/
theorem foldlM_addEntry_eq_ok_iff : ∀ {ms : List (String × Json)} {entries : DataEntries},
    (∃ r, ms.foldlM addEntry entries = .ok r) ↔ ∀ m ∈ ms, ReadableError m.2
  | [], entries => ⟨fun _ m hm => absurd hm List.not_mem_nil, fun _ => ⟨entries, rfl⟩⟩
  | m :: ms, entries => by
      have hcons : (m :: ms).foldlM addEntry entries
          = (addEntry entries m).bind fun entries => ms.foldlM addEntry entries := rfl
      rw [List.forall_mem_cons, hcons, ← readError_eq_ok_iff]
      constructor
      · rintro ⟨r, hr⟩
        obtain ⟨entries', hm, hr⟩ := bind_eq_ok.mp hr
        obtain ⟨x, hx, -⟩ := map_eq_ok.mp hm
        exact ⟨⟨x, hx⟩, foldlM_addEntry_eq_ok_iff.mp ⟨r, hr⟩⟩
      · rintro ⟨⟨x, hx⟩, hms⟩
        obtain ⟨r, hr⟩ := foldlM_addEntry_eq_ok_iff.mpr hms
        exact ⟨r, bind_eq_ok.mpr ⟨_, map_eq_ok.mpr ⟨x, hx, rfl⟩, hr⟩⟩

/-- `dataEntries` returns if and only if every element of the data is an
error itself. -/
theorem dataEntries_eq_ok_iff :
    (∃ r, e.dataEntries = .ok r) ↔ ∀ m ∈ e.data.iterate, ReadableError m.2 :=
  foldlM_addEntry_eq_ok_iff

/-- The entry an element stands for. -/
def entryOf (v : Json) : Option DataEntry :=
  (readError v).toOption.map fun r => ⟨r.1, r.2⟩

/-- An entry found by `dataEntries` is the element of that name. -/
theorem lookup_foldlM_addEntry {k : String} : ∀ {ms : List (String × Json)}
    {entries r : DataEntries}, (ms.map Prod.fst).Nodup → ms.foldlM addEntry entries = .ok r →
      r.lookup k = (ms.lookup k).elim (entries.lookup k) entryOf
  | [], entries, r, _, hr => by
      cases hr
      rfl
  | (k', v) :: ms, entries, r, hnodup, hr => by
      obtain ⟨hk', hnodup⟩ := List.nodup_cons.mp hnodup
      obtain ⟨entries', hm, hr⟩ := bind_eq_ok.mp hr
      obtain ⟨x, hx, rfl⟩ := map_eq_ok.mp hm
      change readError v = .ok x at hx
      rw [lookup_foldlM_addEntry hnodup hr]
      by_cases hk : k = k'
      · subst hk
        -- keys are distinct, so no element behind this one has its name
        have hnone : ms.lookup k = none := by
          refine List.lookup_eq_none_iff.mpr fun m hmem => bne_iff_ne.mpr ?_
          rintro rfl
          exact hk' (List.mem_map.mpr ⟨m, hmem, rfl⟩)
        simp [hnone, entryOf, hx, Except.toOption]
      · have hb : (k == k') = false := by simpa using hk
        rw [List.lookup_cons, hb, AList.lookup_insert_ne hk]

/-! ### The object of a map of entries -/

theorem iterate_set {v : Json} (h : HasMembers v) (key : String) (x : Json) :
    (v.set key x).iterate = Json.insertMember key x v.iterate := by
  rcases h with rfl | ⟨ms, rfl⟩ <;> rfl

theorem iterate_dataObject : ∀ {entries : List (Sigma fun _ : String => DataEntry)} {v : Json},
    HasMembers v → (dataObject entries v).iterate =
      entries.foldl (fun ms e => Json.insertMember e.1 e.2.item ms) v.iterate
  | [], _, _ => rfl
  | e :: entries, v, h => by
      show (dataObject entries (v.set e.1 e.2.item)).iterate = _
      rw [iterate_dataObject (.inr (Json.set_eq_object _ _ _)), iterate_set h]
      rfl

/-- The members an entry map is written to. -/
def entryMembers (entries : List (Sigma fun _ : String => DataEntry)) (ms : List (String × Json)) :
    List (String × Json) :=
  entries.foldl (fun ms e => Json.insertMember e.1 e.2.item ms) ms

theorem lookup_entryMembers {k : String} : ∀ {entries : List (Sigma fun _ : String => DataEntry)}
    {ms : List (String × Json)}, entries.NodupKeys →
      (entryMembers entries ms).lookup k =
        ((entries.dlookup k).map DataEntry.item).or (ms.lookup k)
  | [], _, _ => rfl
  | ⟨k', entry⟩ :: entries, ms, h => by
      obtain ⟨hk', hentries⟩ := List.nodupKeys_cons.mp h
      show (entryMembers entries (Json.insertMember k' entry.item ms)).lookup k = _
      rw [lookup_entryMembers hentries]
      by_cases hk : k = k'
      · subst hk
        -- the entries behind this one do not write its name
        rw [List.dlookup_eq_none.mpr hk', List.dlookup_cons_eq, Json.lookup_insertMember_self]
        rfl
      · rw [List.dlookup_cons_ne _ _ hk, Json.lookup_insertMember_of_ne _ hk]

theorem sorted_entryMembers (entries : List (Sigma fun _ : String => DataEntry))
    {ms : List (String × Json)} (h : (ms.map Prod.fst).Pairwise (· < ·)) :
    ((entryMembers entries ms).map Prod.fst).Pairwise (· < ·) := by
  induction entries generalizing ms with
  | nil => exact h
  | cons e entries ih => exact ih (Json.sorted_insertMember h)

theorem mem_entryMembers {m : String × Json} {ms : List (String × Json)}
    {entries : List (Sigma fun _ : String => DataEntry)} (h : m ∈ entryMembers entries ms) :
    (∃ e ∈ entries, m.2 = e.2.item) ∨ m ∈ ms := by
  induction entries generalizing ms with
  | nil => exact .inr h
  | cons e entries ih =>
      rcases ih h with ⟨e', he', hm⟩ | hm
      · exact .inl ⟨e', List.mem_cons_of_mem _ he', hm⟩
      · refine (Json.eq_or_mem_of_mem_insertMember hm).imp_left ?_
        rintro rfl
        exact ⟨e, List.mem_cons_self, rfl⟩

theorem readError_item {entry : DataEntry} (h : IsInt entry.code) :
    readError entry.item = .ok (entry.code, entry.message) := readError_set _ h

/-- **A map of entries survives** being made an exception's data and read
again. -/
theorem lookup_dataEntries {entries : DataEntries}
    (h : ∀ k entry, entries.lookup k = some entry → IsInt entry.code)
    (hdata : e.data = (ofDataEntries entries).data) :
    ∃ r, e.dataEntries = .ok r ∧ ∀ k, r.lookup k = entries.lookup k := by
  have hint : ∀ entry ∈ entries.entries, IsInt entry.2.code := fun entry hentry =>
    h entry.1 entry.2 (AList.mem_lookup_iff.mpr hentry)
  have hiterate : e.data.iterate = entryMembers entries.entries [] := by
    rw [hdata]
    exact iterate_dataObject (.inl rfl)
  obtain ⟨r, hr⟩ : ∃ r, e.dataEntries = .ok r := by
    refine dataEntries_eq_ok_iff.mpr fun m hm => readError_eq_ok_iff.mp ?_
    rw [hiterate] at hm
    rcases mem_entryMembers hm with ⟨entry, hentry, hm⟩ | hm
    · exact ⟨_, by rw [hm, readError_item (hint entry hentry)]⟩
    · exact absurd hm List.not_mem_nil
  refine ⟨r, hr, fun k => ?_⟩
  rw [dataEntries_eq, hiterate] at hr
  have hnodup : ((entryMembers entries.entries []).map Prod.fst).Nodup :=
    (sorted_entryMembers _ List.Pairwise.nil).imp ne_of_lt
  rw [lookup_foldlM_addEntry hnodup hr, lookup_entryMembers entries.nodupKeys]
  show _ = entries.entries.dlookup k
  rcases hk : entries.entries.dlookup k with - | entry
  · rfl
  · simp [entryOf, readError_item (h k entry hk), Except.toOption]

end JsoncpprpcException

end JetPeer
