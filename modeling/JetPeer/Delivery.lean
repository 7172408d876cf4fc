/-
JetPeer/Delivery.lean

What a stream of whole frames does to the peer that receives it.

`deliver k s ps` hands the payloads `ps` to the peer one after the other
until one of them lets an exception out.  `receive` on the bytes of a stream
does the same, however the bytes are cut and spread over calls
(`receiveAll_deliver`): it is `receive_framesExact` again, with the state
of the peer in place of the log of payloads.

The loop invariant `Delivering k D R c` says that what is left to do ends in
`D` and leaves the bytes `R` of an unfinished frame:

    deliver k c.peer todo = D,   split (received ++ still in the socket) = parsed ++ todo

It survives a `start()` called from a telegram, since a whole telegram leaves
nothing of the old connection behind.
-/
import JetPeer.Chunking

namespace JetPeer

open Framing Framing.Header

variable {σ : Type*}

/-! ### The specification -/

/-- The payloads one after the other, until an exception leaves. -/
def deliver (k : Surroundings σ) : σ → List (List UInt8) → σ × Bool
  | s, [] => (s, false)
  | s, p :: ps =>
      if (k.telegram s p).2.threw then ((k.telegram s p).1, true)
      else deliver k (k.telegram s p).1 ps

theorem deliver_append (k : Surroundings σ) (s : σ) (ps qs : List (List UInt8)) :
    deliver k s (ps ++ qs) =
      if (deliver k s ps).2 then deliver k s ps else deliver k (deliver k s ps).1 qs := by
  induction ps generalizing s with
  | nil => rfl
  | cons p ps ih =>
      rw [List.cons_append, deliver, deliver]
      by_cases hthrew : (k.telegram s p).2.threw = true
      · simp only [hthrew, if_true]
      · simp only [hthrew, ih]
        rfl

/-! ### Bytes in the socket -/

/-- A chunk of bytes as it comes out of the socket. -/
def SocketEvent.payload : SocketEvent → List UInt8
  | .bytes first more => first :: more
  | _ => []

def SocketEvent.isBytes : SocketEvent → Bool
  | .bytes _ _ => true
  | _ => false

/-- All bytes the socket has in store. -/
def storedBytes (es : List SocketEvent) : List UInt8 := es.flatMap SocketEvent.payload

/-- A socket that has bytes only. -/
def BytesOnly (es : List SocketEvent) : Prop := ∀ e ∈ es, e.isBytes = true

theorem socketReceive_bytesOnly {n : ℕ} {es es' : List SocketEvent} {r : SocketResult}
    (h : BytesOnly es) (hr : socketReceive n es = (r, es')) :
    (es = [] ∧ es' = [] ∧ r = .wouldBlock) ∨
      ∃ bs, r = .bytes bs ∧ storedBytes es = bs ++ storedBytes es' ∧ BytesOnly es' := by
  cases es with
  | nil =>
      obtain ⟨rfl, rfl⟩ := Prod.mk.inj hr
      exact .inl ⟨rfl, rfl, rfl⟩
  | cons e es =>
      have he := h e List.mem_cons_self
      have hes : BytesOnly es := fun e' he' => h e' (List.mem_cons_of_mem _ he')
      cases e with
      | bytes first more =>
          obtain ⟨rfl, rfl⟩ := Prod.mk.inj hr
          refine .inr ⟨_, rfl, ?_, ?_⟩
          · -- what is not taken is put back in front
            have hcut := List.take_append_drop n (first :: more)
            show (first :: more) ++ storedBytes es = _
            rcases hd : (first :: more).drop n with - | ⟨b, bs⟩
            · rw [hd, List.append_nil] at hcut
              rw [hcut]
            · rw [hd] at hcut
              show _ = _ ++ ((b :: bs) ++ storedBytes es)
              rw [← List.append_assoc, hcut]
          · rcases (first :: more).drop n with - | ⟨b, bs⟩
            · exact hes
            · intro e' he'
              rcases List.mem_cons.mp he' with rfl | he'
              · rfl
              · exact hes e' he'
      | wouldBlock => cases he
      | error => cases he
      | close => cases he

/-! ### Prefixes of streams -/

/-- The bytes can be completed to whole frames. -/
def Completable (bs : List UInt8) : Prop := ∃ more, lengthHeader.rest (bs ++ more) = []

theorem Completable.of_append {bs x : List UInt8} (h : Completable (bs ++ x)) :
    Completable bs := by
  obtain ⟨more, hmore⟩ := h
  exact ⟨x ++ more, by rwa [← List.append_assoc]⟩

/-- What follows whole frames can be completed as well. -/
theorem Completable.behind {bs x : List UInt8} (h : Completable (bs ++ x))
    (hrest : lengthHeader.rest bs = []) : Completable x := by
  obtain ⟨more, hmore⟩ := h
  refine ⟨more, ?_⟩
  rw [List.append_assoc, (lengthHeader.split_append bs (x ++ more)).2, hrest] at hmore
  exact hmore

theorem Completable.not_oversize {bs : List UInt8} (h : Completable bs) : ¬ Oversize bs := by
  rintro ⟨hlen, hmax⟩
  obtain ⟨more, hmore⟩ := h
  have hann : lengthHeader.announced (lengthHeader.rest bs ++ more)
      = lengthHeader.announced (lengthHeader.rest bs) := by
    show ntohl ((_ ++ more).take lengthBufferSize) = _
    rw [List.take_append_of_le_length hlen]
    rfl
  have hno : ¬ lengthHeader.Starts (lengthHeader.rest bs ++ more) := by
    intro hs
    have hlim := hs.2.1
    rw [hann] at hlim
    exact absurd hlim (Nat.not_le.mpr hmax)
  rw [(lengthHeader.split_append bs more).2, lengthHeader.rest_of_not_starts hno] at hmore
  rw [(List.append_eq_nil_iff.mp hmore).1] at hlen
  exact absurd hlen (by decide)

theorem completable_stream {ps : List (List UInt8)} (h : ∀ p ∈ ps, p.length ≤ maxMessageSize) :
    Completable (lengthHeader.stream ps) :=
  ⟨[], by rw [(lengthHeader.split_stream h []).2, lengthHeader.rest_nil]⟩

/-! ### The loop -/

/-- What is left to do ends in `D` and leaves `R`. -/
structure Delivering (k : Surroundings σ) (D : σ × Bool) (R : List UInt8) (c : Conn σ) :
    Prop where
  position : InLoop c
  bytesOnly : BytesOnly c.socket
  completable : Completable (c.received ++ storedBytes c.socket)
  rest : lengthHeader.rest (c.received ++ storedBytes c.socket) = R
  todo : ∃ todo, lengthHeader.split (c.received ++ storedBytes c.socket) = c.parsed ++ todo ∧
    deliver k c.peer todo = D

/-- The positions between two calls on a connection that is up. -/
def Reading (c : Conn σ) : Prop := OnLength c ∨ OnData c

/-- How a call ends that was given bytes only. -/
def Delivered (D : σ × Bool) (R : List UInt8) (c : Conn σ) : Return → Prop
  | .value result => result = 0 ∧ D = (c.peer, false) ∧ Reading c ∧
      lengthHeader.rest c.received = R
  | .exception => D = (c.peer, true)

/-- How a turn has to end. -/
def Progress.Delivers (k : Surroundings σ) (D : σ × Bool) (R : List UInt8) :
    Progress σ → Prop
  | .next c => Delivering k D R c
  | .done c r => Delivered D R c r

theorem todo_of_empty {c : Conn σ} {todo : List (List UInt8)}
    (hp : c.parsed = lengthHeader.split c.received)
    (h : lengthHeader.split (c.received ++ storedBytes []) = c.parsed ++ todo) : todo = [] := by
  rw [storedBytes, List.flatMap_nil, List.append_nil, hp] at h
  exact (List.append_right_eq_self.mp h.symm)

theorem readLength_delivers (k : Surroundings σ) {D : σ × Bool} {R : List UInt8} {c : Conn σ}
    (h : Delivering k D R c) (hpos : OnLength c) : (readLength k c).Delivers k D R := by
  obtain ⟨todo, hsplit, hD⟩ := h.todo
  have hposition := readLength_position k hpos
  have hread : 0 < lengthBufferSize - c.lengthBufferLevel ∧
      c.lengthBufferLevel + (lengthBufferSize - c.lengthBufferLevel) ≤ lengthBufferSize := by
    have := hpos.level
    omega
  rcases hr : socketReceive (lengthBufferSize - c.lengthBufferLevel) c.socket with ⟨r, es⟩
  rcases socketReceive_bytesOnly h.bytesOnly hr with ⟨hnil, rfl, rfl⟩ | ⟨bs, rfl, hbs, honly⟩
  · -- nothing in store
    simp only [readLength, hr] at hposition ⊢
    have hrest := h.rest
    rw [hnil] at hsplit hrest
    obtain rfl := todo_of_empty hpos.payloads hsplit
    refine ⟨rfl, hD.symm, .inl ?_, by rwa [storedBytes, List.flatMap_nil, List.append_nil] at hrest⟩
    exact { hpos with
      toLogged := hpos.toLogged.read (r := ⟨c.lengthBufferLevel, _, lengthBufferSize⟩) hread [] }
  · rw [hbs, ← List.append_assoc] at hsplit
    have hcompletable := h.completable
    have hrest := h.rest
    rw [hbs, ← List.append_assoc] at hcompletable hrest
    simp only [readLength, hr] at hposition ⊢
    split_ifs with hfull hmax
    · -- a stream of frames announces no length over the limit
      exfalso
      have hwhole : writeAt c.bigEndianLengthBuffer c.lengthBufferLevel bs
          = c.bigEndianLengthBuffer.take c.lengthBufferLevel ++ bs :=
        writeAt_full (by rw [hpos.buffer]; exact hfull)
      have hlen : (writeAt c.bigEndianLengthBuffer c.lengthBufferLevel bs).length
          = lengthBufferSize := by
        rw [length_writeAt (by rw [hpos.buffer]; exact hfull.le), hpos.buffer]
      obtain ⟨-, hheld⟩ := feed_incomplete hpos.rest (c := bs)
        (by rw [← hwhole]; exact not_starts_of_oversize hlen hmax)
      refine hcompletable.of_append.not_oversize ⟨?_, ?_⟩
      · rw [hheld, ← hwhole, hlen]
      · have hann := announced_buffer [] hlen
        rw [List.append_nil] at hann
        rw [hheld, ← hwhole, hann]
        exact hmax
    · rw [if_pos hfull, if_neg hmax] at hposition
      exact ⟨hposition, honly, hcompletable, hrest, todo, hsplit, hD⟩
    · rw [if_neg hfull] at hposition
      exact ⟨hposition, honly, hcompletable, hrest, todo, hsplit, hD⟩

theorem readData_delivers (k : Surroundings σ) {D : σ × Bool} {R : List UInt8} {c : Conn σ}
    (h : Delivering k D R c) (hpos : OnData c) : (readData k c).Delivers k D R := by
  obtain ⟨todo, hsplit, hD⟩ := h.todo
  have hposition := readData_position k hpos
  have hread : 0 < c.dataBuffer.length - c.dataBufferLevel ∧
      c.dataBufferLevel + (c.dataBuffer.length - c.dataBufferLevel) ≤ c.dataBuffer.length := by
    have := hpos.dataLevel
    omega
  rcases hr : socketReceive (c.dataBuffer.length - c.dataBufferLevel) c.socket with ⟨r, es⟩
  rcases socketReceive_bytesOnly h.bytesOnly hr with ⟨hnil, rfl, rfl⟩ | ⟨bs, rfl, hbs, honly⟩
  · simp only [readData, hr] at hposition ⊢
    have hrest := h.rest
    rw [hnil] at hsplit hrest
    obtain rfl := todo_of_empty hpos.payloads hsplit
    refine ⟨rfl, hD.symm, .inr ?_, by rwa [storedBytes, List.flatMap_nil, List.append_nil] at hrest⟩
    exact { hpos with
      toLogged := hpos.toLogged.read (r := ⟨c.dataBufferLevel, _, c.dataBuffer.length⟩) hread [] }
  · rw [hbs, ← List.append_assoc] at hsplit
    have hcompletable := h.completable
    have hrest := h.rest
    rw [hbs, ← List.append_assoc] at hcompletable hrest
    simp only [readData, hr] at hposition ⊢
    exact ⟨hposition, honly, hcompletable, hrest, todo, hsplit, hD⟩

theorem handleTelegram_delivers (k : Surroundings σ) {D : σ × Bool} {R : List UInt8} {c : Conn σ}
    (h : Delivering k D R c) (hpos : OnTelegram c) : (handleTelegram k c).Delivers k D R := by
  obtain ⟨todo, hsplit, hD⟩ := h.todo
  have hposition := handleTelegram_position k hpos
  have hpayload : (c.dataBuffer ++ [0]).take ((c.dataBuffer ++ [0]).length - 1)
      = c.dataBuffer := by
    rw [List.length_append, List.length_singleton, Nat.add_sub_cancel, List.take_left]
  obtain ⟨hbehind, hrest⟩ := lengthHeader.split_append c.received (storedBytes c.socket)
  rw [hpos.rest, List.nil_append] at hbehind hrest
  rw [← hpos.payloads] at hbehind
  -- the telegram is the first thing left to do
  obtain rfl : todo = c.dataBuffer :: lengthHeader.split (storedBytes c.socket) := by
    rw [hbehind, List.append_assoc] at hsplit
    exact (List.append_cancel_left hsplit).symm
  have hcompletable := h.completable.behind hpos.rest
  rcases hk : k.telegram c.peer c.dataBuffer with ⟨p, ⟨threw, restarted⟩⟩
  simp only [deliver, hk] at hD
  simp only [handleTelegram, hpayload, hk] at hposition ⊢
  cases threw with
  | true =>
      rw [if_pos rfl] at hD
      simp only [if_true]
      cases restarted <;> exact hD.symm
  | false =>
      rw [if_neg Bool.false_ne_true] at hD
      cases restarted with
      | true =>
          exact ⟨hposition, h.bytesOnly, hcompletable, hrest.symm.trans h.rest, _, rfl, hD⟩
      | false =>
          refine ⟨hposition, h.bytesOnly, h.completable, h.rest, _, ?_, hD⟩
          show lengthHeader.split (c.received ++ storedBytes c.socket)
            = (c.parsed ++ [c.dataBuffer]) ++ _
          exact hbehind

theorem receiveStep_delivers (k : Surroundings σ) {D : σ × Bool} {R : List UInt8} {c : Conn σ}
    (h : Delivering k D R c) : (receiveStep k c).Delivers k D R := by
  unfold receiveStep
  rcases h.position with hp | hp | hp
  · rw [if_pos hp.level]
    exact readLength_delivers k h hp
  · rw [if_neg (by rw [hp.level]; exact lt_irrefl _), if_pos hp.dataLevel]
    exact readData_delivers k h hp
  · rw [if_neg (by rw [hp.level]; exact lt_irrefl _),
      if_neg (by rw [hp.dataLevel]; exact lt_irrefl _)]
    exact handleTelegram_delivers k h hp

/-- **One call of `receive`** does what `deliver` does with the payloads it
completes. -/
theorem receive_delivers (k : Surroundings σ) {D : σ × Bool} {R : List UInt8} {c : Conn σ}
    (h : Delivering k D R c) : Delivered D R (receive k c).1 (receive k c).2 := by
  refine receive_rule (k := k) (I := Delivering k D R) (Q := Delivered D R) ?_ ?_ c h
  · intro c c' hc hstep
    have := receiveStep_delivers k hc
    rwa [hstep] at this
  · intro c c' r hc hstep
    have := receiveStep_delivers k hc
    rwa [hstep] at this

/-! ### Any number of calls -/

/-- Calls of `receive`, each with what the socket has in store for it, until
an exception leaves one of them. -/
def receiveAll (k : Surroundings σ) : Conn σ → List (List SocketEvent) → Conn σ × Bool
  | c, [] => (c, false)
  | c, es :: calls =>
      match receive k { c with socket := es } with
      | (c', .value _) => receiveAll k c' calls
      | (c', .exception) => (c', true)

theorem Reading.withSocket {c : Conn σ} (h : Reading c) (es : List SocketEvent) :
    Reading { c with socket := es } := by
  rcases h with h | h
  · exact .inl { h with }
  · exact .inr { h with }

theorem Reading.payloads {c : Conn σ} (h : Reading c) :
    c.parsed = lengthHeader.split c.received := by
  rcases h with h | h <;> exact h.payloads

/-- **Receiving a stream**: calls that are given the bytes of whole frames,
cut in any way, do to the peer what `deliver` does with the payloads, and
stand where the reference decoder stands. -/
theorem receiveAll_deliver (k : Surroundings σ) :
    ∀ (calls : List (List SocketEvent)) {c : Conn σ}, Reading c →
      (∀ es ∈ calls, BytesOnly es) →
      Completable (c.received ++ calls.flatMap storedBytes) →
      ((receiveAll k c calls).1.peer, (receiveAll k c calls).2)
          = deliver k c.peer
            (lengthHeader.split (lengthHeader.rest c.received ++ calls.flatMap storedBytes)) ∧
        ((receiveAll k c calls).2 = false → Reading (receiveAll k c calls).1 ∧
          lengthHeader.rest (receiveAll k c calls).1.received
            = lengthHeader.rest (c.received ++ calls.flatMap storedBytes))
  | [], c, hc, _, _ => by
      have hidle : lengthHeader.split (lengthHeader.rest c.received) = [] := by
        have h := (lengthHeader.split_append c.received []).1
        rw [List.append_nil, List.append_nil] at h
        exact List.append_right_eq_self.mp h.symm
      rw [List.flatMap_nil, List.append_nil, List.append_nil, hidle]
      exact ⟨rfl, fun _ => ⟨hc, rfl⟩⟩
  | es :: calls, c, hc, honly, hcomp => by
      rw [List.flatMap_cons, ← List.append_assoc] at hcomp ⊢
      obtain ⟨hsplit, hrest⟩ := lengthHeader.split_append c.received (storedBytes es)
      have hstart : Delivering k
          (deliver k c.peer
            (lengthHeader.split (lengthHeader.rest c.received ++ storedBytes es)))
          (lengthHeader.rest (c.received ++ storedBytes es)) { c with socket := es } :=
        { position := by
            rcases hc.withSocket es with h | h
            · exact .inl h
            · exact .inr (.inl h)
          bytesOnly := honly es List.mem_cons_self
          completable := hcomp.of_append
          rest := rfl
          todo := ⟨_, by rw [hc.payloads]; exact hsplit, rfl⟩ }
      have hend := receive_delivers k hstart
      obtain ⟨hsplit', hrest'⟩ := lengthHeader.split_append
        (lengthHeader.rest c.received ++ storedBytes es) (calls.flatMap storedBytes)
      rw [← List.append_assoc, hsplit', ← hrest, deliver_append, receiveAll]
      rcases hr : receive k { c with socket := es } with ⟨c', v | -⟩
      · rw [hr] at hend
        obtain ⟨-, hD, hreading, hheld⟩ := hend
        have hcomp' : Completable (c'.received ++ calls.flatMap storedBytes) := by
          obtain ⟨more, hmore⟩ := hcomp
          refine ⟨more, ?_⟩
          rw [List.append_assoc, (lengthHeader.split_append _ _).2] at hmore ⊢
          rwa [hheld]
        obtain ⟨hpeer, hfinal⟩ := receiveAll_deliver k calls hreading
          (fun es' hes' => honly es' (List.mem_cons_of_mem _ hes')) hcomp'
        rw [hD, if_neg Bool.false_ne_true, ← hheld]
        refine ⟨hpeer, fun hthrew => ⟨(hfinal hthrew).1, ?_⟩⟩
        rw [(hfinal hthrew).2, (lengthHeader.split_append _ _).2, hheld,
          ← (lengthHeader.split_append _ _).2]
      · rw [hr] at hend
        have hD : deliver k c.peer _ = (c'.peer, true) := hend
        rw [hD, if_pos rfl]
        exact ⟨rfl, fun h => Bool.noConfusion h⟩

/-- Where the bytes end with a frame, the buffers are empty. -/
theorem Reading.buffers_empty {c : Conn σ} (h : Reading c)
    (hrest : lengthHeader.rest c.received = []) :
    c.lengthBufferLevel = 0 ∧ c.dataBuffer = [] ∧ c.dataBufferLevel = 0 := by
  rcases h with h | h
  · have hlen := congrArg List.length (h.rest.symm.trans hrest)
    rw [List.length_take, h.buffer, List.length_nil] at hlen
    have hlevel := h.level
    exact ⟨by omega, h.data, h.dataLevel⟩
  · -- four bytes of length are still held
    have hlen := congrArg List.length (h.rest.symm.trans hrest)
    rw [List.length_append, h.buffer, List.length_nil] at hlen
    exact absurd hlen (by simp [lengthBufferSize])

end JetPeer
