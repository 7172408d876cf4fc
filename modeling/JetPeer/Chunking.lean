/-
JetPeer/Chunking.lean

`PeerAsync::receive` is an incremental decoder of the telegram framing.

Between two calls the buffers are in one of four positions, each of which
names the symbols the reference decoder still holds:

    OnLength      part of a length
    OnData        a length and part of its payload
    Oversized     a length over the limit; the connection was given up
    Interrupted   nothing, but an exception left the buffers of the last
                  telegram behind

Inside the loops there is a fifth, `OnTelegram`: a payload is complete and
about to be parsed.  One lemma a turn carries the position along
(`readLength_position`, `readData_position`, `handleTelegram_position`), and
the loop rule and the run rule do the rest.

From the first two positions `receive` can be entered again.  From the last
two it cannot: it would hand the parser an empty payload that was never sent,
or complete the old telegram with the first byte of the next one.  Both are
visible in the members (`Resumable`), and `start()` leaves either.
-/
import JetPeer.Receive
import JetPeer.Runs

namespace JetPeer

open Runs Framing Framing.Header

variable {σ : Type*}

/-! ### What exact decoding means -/

/-- The bytes received end in a length over the limit. -/
def Oversize (bs : List UInt8) : Prop :=
  lengthBufferSize ≤ (lengthHeader.rest bs).length ∧
    maxMessageSize < lengthHeader.announced (lengthHeader.rest bs)

/-- Decoding is exact: the parser got the payloads of the reference decoder;
a length over the limit ends the connection with `-1` before any byte behind
it is read; every read asks for a non-empty range inside its buffer. -/
structure FramesExact (c : Conn σ) : Prop where
  payloads : c.parsed = lengthHeader.split c.received
  oversize : Oversize c.received →
    (lengthHeader.rest c.received).length = lengthBufferSize ∧
      ⟨c.received, -1⟩ ∈ c.closings
  closings : ∀ cl ∈ c.closings, Oversize cl.received →
    cl.result = -1 ∧ (lengthHeader.rest cl.received).length = lengthBufferSize
  reads : ∀ r ∈ c.reads, 0 < r.size ∧ r.offset + r.size ≤ r.capacity

/-! ### Positions -/

/-- What holds in every position. -/
structure Logged (c : Conn σ) : Prop where
  buffer : c.bigEndianLengthBuffer.length = lengthBufferSize
  closings : ∀ cl ∈ c.closings, Oversize cl.received →
    cl.result = -1 ∧ (lengthHeader.rest cl.received).length = lengthBufferSize
  reads : ∀ r ∈ c.reads, 0 < r.size ∧ r.offset + r.size ≤ r.capacity

structure OnLength (c : Conn σ) : Prop extends Logged c where
  level : c.lengthBufferLevel < lengthBufferSize
  data : c.dataBuffer = []
  dataLevel : c.dataBufferLevel = 0
  rest : lengthHeader.rest c.received = c.bigEndianLengthBuffer.take c.lengthBufferLevel
  payloads : c.parsed = lengthHeader.split c.received

structure OnData (c : Conn σ) : Prop extends Logged c where
  level : c.lengthBufferLevel = lengthBufferSize
  data : c.dataBuffer.length = ntohl c.bigEndianLengthBuffer
  limit : ntohl c.bigEndianLengthBuffer ≤ maxMessageSize
  dataLevel : c.dataBufferLevel < c.dataBuffer.length
  rest : lengthHeader.rest c.received =
    c.bigEndianLengthBuffer ++ c.dataBuffer.take c.dataBufferLevel
  payloads : c.parsed = lengthHeader.split c.received

structure OnTelegram (c : Conn σ) : Prop extends Logged c where
  level : c.lengthBufferLevel = lengthBufferSize
  data : c.dataBuffer.length = ntohl c.bigEndianLengthBuffer
  limit : ntohl c.bigEndianLengthBuffer ≤ maxMessageSize
  dataLevel : c.dataBufferLevel = c.dataBuffer.length
  rest : lengthHeader.rest c.received = []
  payloads : c.parsed ++ [c.dataBuffer] = lengthHeader.split c.received

structure Oversized (c : Conn σ) : Prop extends Logged c where
  level : c.lengthBufferLevel = lengthBufferSize
  data : c.dataBuffer = []
  limit : maxMessageSize < ntohl c.bigEndianLengthBuffer
  rest : lengthHeader.rest c.received = c.bigEndianLengthBuffer
  payloads : c.parsed = lengthHeader.split c.received
  givenUp : ⟨c.received, -1⟩ ∈ c.closings

structure Interrupted (c : Conn σ) : Prop extends Logged c where
  level : c.lengthBufferLevel = lengthBufferSize
  data : c.dataBuffer.length = ntohl c.bigEndianLengthBuffer + 1
  rest : lengthHeader.rest c.received = []
  payloads : c.parsed = lengthHeader.split c.received

/-- The positions inside the loops. -/
def InLoop (c : Conn σ) : Prop := OnLength c ∨ OnData c ∨ OnTelegram c

/-- The positions between two calls. -/
def AtRest (c : Conn σ) : Prop :=
  OnLength c ∨ OnData c ∨ Oversized c ∨ Interrupted c

/-- The members allow `receive` to be entered again: the length is
incomplete, or the data buffer has the announced size and is not full. -/
def Resumable (c : Conn σ) : Prop :=
  c.lengthBufferLevel < lengthBufferSize ∨
    (c.dataBufferLevel < c.dataBuffer.length ∧
      c.dataBuffer.length = ntohl c.bigEndianLengthBuffer)

theorem AtRest.inLoop {c : Conn σ} (h : AtRest c) (hc : Resumable c) : InLoop c := by
  rcases h with h | h | h | h
  · exact .inl h
  · exact .inr (.inl h)
  · -- the length is complete and the data buffer is empty
    rcases hc with hc | hc
    · exact absurd hc (by rw [h.level]; exact lt_irrefl _)
    · rw [h.data] at hc
      exact absurd hc.1 (Nat.not_lt_zero _)
  · -- the terminator is still in the data buffer
    rcases hc with hc | hc
    · exact absurd hc (by rw [h.level]; exact lt_irrefl _)
    · rw [h.data] at hc
      exact absurd hc.2 (Nat.succ_ne_self _)

/-! ### The buffers as prefixes -/

theorem take_writeAt {buffer bs : List UInt8} {offset : ℕ}
    (ho : offset ≤ buffer.length) :
    (writeAt buffer offset bs).take (offset + bs.length) = buffer.take offset ++ bs := by
  have hlen : (buffer.take offset ++ bs).length = offset + bs.length := by
    simp only [List.length_append, List.length_take]
    omega
  rw [writeAt, ← hlen, List.take_left]

theorem length_writeAt {buffer bs : List UInt8} {offset : ℕ}
    (ho : offset + bs.length ≤ buffer.length) :
    (writeAt buffer offset bs).length = buffer.length := by
  simp only [writeAt, List.length_append, List.length_take, List.length_drop]
  omega

theorem writeAt_full {buffer bs : List UInt8} {offset : ℕ}
    (ho : offset + bs.length = buffer.length) :
    writeAt buffer offset bs = buffer.take offset ++ bs := by
  have h : (writeAt buffer offset bs).take (offset + bs.length) = buffer.take offset ++ bs :=
    take_writeAt (by omega)
  rw [List.take_of_length_le (by rw [length_writeAt ho.le, ho])] at h
  exact h

/-! ### The reference decoder on what a position holds -/

theorem not_starts_of_short {bs : List UInt8} (h : bs.length < lengthBufferSize) :
    ¬ lengthHeader.Starts bs := fun hs => absurd hs.1 (Nat.not_le.mpr h)

theorem announced_buffer {hd : List UInt8} (p : List UInt8)
    (hh : hd.length = lengthBufferSize) : lengthHeader.announced (hd ++ p) = ntohl hd := by
  have ht : (hd ++ p).take lengthBufferSize = hd := by rw [← hh, List.take_left]
  exact congrArg ntohl ht

theorem not_starts_of_partial {hd p : List UInt8} (hh : hd.length = lengthBufferSize)
    (hp : p.length < ntohl hd) : ¬ lengthHeader.Starts (hd ++ p) := by
  intro hs
  have h := hs.2.2
  rw [announced_buffer p hh, List.length_append, hh] at h
  exact absurd h (by simp only [lengthHeader]; omega)

theorem not_starts_of_oversize {hd : List UInt8} (hh : hd.length = lengthBufferSize)
    (hmax : maxMessageSize < ntohl hd) : ¬ lengthHeader.Starts hd := by
  intro hs
  have h := hs.2.1
  have hann := announced_buffer [] hh
  rw [List.append_nil] at hann
  rw [hann] at h
  exact absurd h (Nat.not_le.mpr hmax)

theorem not_oversize_of_short {bs : List UInt8}
    (h : (lengthHeader.rest bs).length < lengthBufferSize) : ¬ Oversize bs :=
  fun ho => absurd ho.1 (Nat.not_le.mpr h)

theorem not_oversize_of_limit {bs hd p : List UInt8} (hr : lengthHeader.rest bs = hd ++ p)
    (hh : hd.length = lengthBufferSize) (hmax : ntohl hd ≤ maxMessageSize) :
    ¬ Oversize bs := by
  intro ho
  have h := ho.2
  rw [hr, announced_buffer p hh] at h
  exact absurd h (Nat.not_lt.mpr hmax)

theorem OnLength.not_oversize {c : Conn σ} (h : OnLength c) : ¬ Oversize c.received := by
  refine not_oversize_of_short ?_
  rw [h.rest, List.length_take]
  exact lt_of_le_of_lt (min_le_left _ _) h.level

theorem OnData.not_oversize {c : Conn σ} (h : OnData c) : ¬ Oversize c.received :=
  not_oversize_of_limit h.rest h.buffer h.limit

/-- At rest, decoding has been exact. -/
theorem AtRest.framesExact {c : Conn σ} (h : AtRest c) : FramesExact c := by
  rcases h with h | h | h | h
  · exact ⟨h.payloads, fun ho => absurd ho h.not_oversize, h.closings, h.reads⟩
  · exact ⟨h.payloads, fun ho => absurd ho h.not_oversize, h.closings, h.reads⟩
  · refine ⟨h.payloads, fun _ => ⟨?_, h.givenUp⟩, h.closings, h.reads⟩
    rw [h.rest, h.buffer]
  · refine ⟨h.payloads, fun ho => ?_, h.closings, h.reads⟩
    refine absurd ho (not_oversize_of_short ?_)
    rw [h.rest]
    decide

/-! ### Entering and leaving a connection -/

theorem Logged.start {c : Conn σ} (h : Logged c) : OnLength (start c) where
  buffer := h.buffer
  closings := h.closings
  reads := h.reads
  level := show 0 < lengthBufferSize by decide
  data := rfl
  dataLevel := rfl
  rest := lengthHeader.rest_nil
  payloads := lengthHeader.split_nil.symm

theorem AtRest.logged {c : Conn σ} (h : AtRest c) : Logged c := by
  rcases h with h | h | h | h <;> exact h.toLogged

/-- `stop()` keeps the position or starts anew. -/
theorem AtRest.stop {c : Conn σ} (k : Surroundings σ) (h : AtRest c) :
    AtRest (stop k c) := by
  rcases hk : k.stop c.peer with ⟨p, r⟩
  have hp : AtRest { c with peer := p } := by
    rcases h with h | h | h | h
    · exact .inl { h with }
    · exact .inr (.inl { h with })
    · exact .inr (.inr (.inl { h with }))
    · exact .inr (.inr (.inr { h with }))
  simp only [JetPeer.stop, hk]
  cases r with
  | true => exact .inl hp.logged.start
  | false => exact hp

/-- One more entry in the log of closings. -/
theorem Logged.closing {c : Conn σ} {v : Int} (h : Logged c)
    (hv : Oversize c.received →
      v = -1 ∧ (lengthHeader.rest c.received).length = lengthBufferSize) :
    Logged { c with closings := c.closings ++ [⟨c.received, v⟩] } where
  buffer := h.buffer
  reads := h.reads
  closings := by
    intro cl hcl
    rcases List.mem_append.mp hcl with hcl | hcl
    · exact h.closings cl hcl
    · rw [List.mem_singleton] at hcl
      subst hcl
      exact hv

/-- One more entry in the log of reads. -/
theorem Logged.read {c : Conn σ} {r : SocketRead} (h : Logged c)
    (hr : 0 < r.size ∧ r.offset + r.size ≤ r.capacity) (es : List SocketEvent) :
    Logged { c with socket := es, reads := c.reads ++ [r] } where
  buffer := h.buffer
  closings := h.closings
  reads := by
    intro r' hr'
    rcases List.mem_append.mp hr' with hr' | hr'
    · exact h.reads r' hr'
    · rw [List.mem_singleton] at hr'
      subst hr'
      exact hr

/-! ### One lemma a turn -/

/-- How a turn has to end: in the loop, or at rest. -/
def Progress.Positioned : Progress σ → Prop
  | .next c => InLoop c
  | .done c _ => AtRest c

theorem OnLength.giveUp {c : Conn σ} (k : Surroundings σ) (v : Int) (h : OnLength c) :
    (giveUp k v c).Positioned :=
  AtRest.stop k (.inl { h with
    toLogged := h.toLogged.closing fun ho => absurd ho h.not_oversize })

theorem OnData.giveUp {c : Conn σ} (k : Surroundings σ) (v : Int) (h : OnData c) :
    (giveUp k v c).Positioned :=
  AtRest.stop k (.inr (.inl { h with
    toLogged := h.toLogged.closing fun ho => absurd ho h.not_oversize }))

/-- Some more bytes of the length. -/
def gotLength (c : Conn σ) (bs : List UInt8) : Conn σ :=
  { c with
    received := c.received ++ bs
    bigEndianLengthBuffer := writeAt c.bigEndianLengthBuffer c.lengthBufferLevel bs
    lengthBufferLevel := c.lengthBufferLevel + bs.length }

section Lengths

variable {c : Conn σ} {bs : List UInt8}

theorem OnLength.got (h : OnLength c) (hle : c.lengthBufferLevel + bs.length ≤ lengthBufferSize) :
    Logged (gotLength c bs) where
  buffer := by
    show (writeAt c.bigEndianLengthBuffer c.lengthBufferLevel bs).length = _
    rw [length_writeAt (by rw [h.buffer]; exact hle), h.buffer]
  closings := h.closings
  reads := h.reads

/-- The length is still incomplete. -/
theorem OnLength.got_more (h : OnLength c)
    (hnew : c.lengthBufferLevel + bs.length < lengthBufferSize) : OnLength (gotLength c bs) := by
  have hbuffer := h.buffer
  obtain ⟨hsplit, hrest⟩ := feed_incomplete h.rest (c := bs) (not_starts_of_short (by
    rw [List.length_append, List.length_take]; omega))
  exact
    { toLogged := h.got hnew.le
      level := hnew
      data := h.data
      dataLevel := h.dataLevel
      rest := by
        show lengthHeader.rest (c.received ++ bs) = List.take (_ + bs.length) (writeAt _ _ bs)
        rw [hrest, take_writeAt (by omega)]
      payloads := by
        show c.parsed = lengthHeader.split (c.received ++ bs)
        rw [hsplit, h.payloads] }

/-- A length that is complete is the bytes written so far. -/
theorem OnLength.whole (h : OnLength c)
    (hfull : c.lengthBufferLevel + bs.length = lengthBufferSize) :
    c.bigEndianLengthBuffer.take c.lengthBufferLevel ++ bs
      = (gotLength c bs).bigEndianLengthBuffer :=
  (writeAt_full (by rw [h.buffer]; exact hfull)).symm

/-- The length is complete and over the limit. -/
theorem OnLength.got_oversize (h : OnLength c)
    (hfull : c.lengthBufferLevel + bs.length = lengthBufferSize)
    (hmax : maxMessageSize < ntohl (gotLength c bs).bigEndianLengthBuffer) :
    Oversized { gotLength c bs with closings := c.closings ++ [⟨c.received ++ bs, -1⟩] } := by
  have hgot := h.got hfull.le
  obtain ⟨hsplit, hrest⟩ := feed_incomplete h.rest (c := bs)
    (by rw [h.whole hfull]; exact not_starts_of_oversize hgot.buffer hmax)
  rw [h.whole hfull] at hrest
  exact
    { toLogged := hgot.closing fun _ => ⟨rfl, (congrArg List.length hrest).trans hgot.buffer⟩
      level := hfull
      data := h.data
      limit := hmax
      rest := hrest
      payloads := h.payloads.trans hsplit.symm
      givenUp := List.mem_append_right _ (List.mem_singleton_self _) }

/-- The length is complete: it announces a payload, which may be empty. -/
theorem OnLength.got_announcement (h : OnLength c)
    (hfull : c.lengthBufferLevel + bs.length = lengthBufferSize)
    (hmax : ntohl (gotLength c bs).bigEndianLengthBuffer ≤ maxMessageSize) :
    InLoop { gotLength c bs with
      dataBuffer := resize c.dataBuffer (ntohl (gotLength c bs).bigEndianLengthBuffer) } := by
  have hgot := h.got hfull.le
  have hwhole := h.whole hfull
  generalize hn : ntohl (gotLength c bs).bigEndianLengthBuffer = n at hmax ⊢
  have hdata : resize c.dataBuffer n = List.replicate n 0 := by
    rw [h.data]
    simp [resize]
  have hlength : (resize c.dataBuffer n).length = n := by rw [hdata, List.length_replicate]
  rcases Nat.eq_zero_or_pos n with rfl | hpos
  · -- an empty telegram is complete with its length
    obtain ⟨hsplit, hrest⟩ := feed_whole h.rest (c := bs) (p := [])
      (by rw [List.append_nil, hwhole]) hgot.buffer hn.symm (hn.trans_le hmax)
    refine .inr (.inr ?_)
    exact
      { buffer := hgot.buffer
        reads := hgot.reads
        closings := hgot.closings
        level := hfull
        data := hlength.trans hn.symm
        limit := hn.trans_le hmax
        dataLevel := h.dataLevel.trans hlength.symm
        rest := hrest
        payloads := by
          show c.parsed ++ [resize c.dataBuffer 0] = lengthHeader.split (c.received ++ bs)
          rw [hsplit, hdata, h.payloads]
          rfl }
  · obtain ⟨hsplit, hrest⟩ := feed_incomplete h.rest (c := bs) (by
      rw [hwhole, ← List.append_nil (gotLength c bs).bigEndianLengthBuffer]
      exact not_starts_of_partial hgot.buffer (hpos.trans_eq hn.symm))
    refine .inr (.inl ?_)
    exact
      { buffer := hgot.buffer
        reads := hgot.reads
        closings := hgot.closings
        level := hfull
        data := hlength.trans hn.symm
        limit := hn.trans_le hmax
        dataLevel := by
          show c.dataBufferLevel < (resize c.dataBuffer n).length
          rw [hlength, h.dataLevel]
          exact hpos
        rest := by
          show lengthHeader.rest (c.received ++ bs) = _ ++ List.take c.dataBufferLevel _
          rw [hrest, h.dataLevel, List.take_zero, List.append_nil, hwhole]
        payloads := h.payloads.trans hsplit.symm }

end Lengths

/-- Reading on in a length: it stays incomplete, it announces a payload, or
it is over the limit. -/
theorem readLength_position (k : Surroundings σ) {c : Conn σ} (h : OnLength c) :
    (readLength k c).Positioned := by
  have hlevel := h.level
  have hread : 0 < lengthBufferSize - c.lengthBufferLevel ∧
      c.lengthBufferLevel + (lengthBufferSize - c.lengthBufferLevel) ≤ lengthBufferSize := by
    omega
  rcases hr : socketReceive (lengthBufferSize - c.lengthBufferLevel) c.socket with ⟨r, es⟩
  have hlog := h.toLogged.read (r := ⟨c.lengthBufferLevel, _, lengthBufferSize⟩) hread es
  have hsame : OnLength { c with
      socket := es,
      reads := c.reads ++ [⟨c.lengthBufferLevel, lengthBufferSize - c.lengthBufferLevel,
        lengthBufferSize⟩] } := { h with toLogged := hlog }
  cases r with
  | wouldBlock => simp only [readLength, hr]; exact .inl hsame
  | error => simp only [readLength, hr]; exact hsame.giveUp k (-1)
  | close => simp only [readLength, hr]; exact hsame.giveUp k 0
  | bytes bs =>
      obtain ⟨-, hle, -⟩ := socketReceive_bytes (by omega) hr
      simp only [readLength, hr]
      split_ifs with hfull hmax
      · exact AtRest.stop k (.inr (.inr (.inl (hsame.got_oversize hfull hmax))))
      · exact hsame.got_announcement hfull (Nat.not_lt.mp hmax)
      · have hnew : c.lengthBufferLevel + bs.length < lengthBufferSize := by omega
        exact .inl (hsame.got_more hnew)

/-- Some more bytes of the payload. -/
def gotData (c : Conn σ) (bs : List UInt8) : Conn σ :=
  { c with
    received := c.received ++ bs
    dataBuffer := writeAt c.dataBuffer c.dataBufferLevel bs
    dataBufferLevel := c.dataBufferLevel + bs.length }

section Payloads

variable {c : Conn σ} {bs : List UInt8}

theorem length_gotData (hle : c.dataBufferLevel + bs.length ≤ c.dataBuffer.length) :
    (gotData c bs).dataBuffer.length = c.dataBuffer.length := length_writeAt hle

/-- The payload is still incomplete. -/
theorem OnData.got_more (h : OnData c)
    (hnew : c.dataBufferLevel + bs.length < c.dataBuffer.length) : OnData (gotData c bs) := by
  have hlen := length_gotData hnew.le
  have hpart : (c.dataBuffer.take c.dataBufferLevel ++ bs).length
      < ntohl c.bigEndianLengthBuffer := by
    have := h.data
    rw [List.length_append, List.length_take]
    omega
  obtain ⟨hsplit, hrest⟩ := feed_incomplete h.rest (c := bs) (by
    rw [List.append_assoc]
    exact not_starts_of_partial h.buffer hpart)
  exact
    { buffer := h.buffer
      reads := h.reads
      closings := h.closings
      level := h.level
      data := hlen.trans h.data
      limit := h.limit
      dataLevel := hnew.trans_eq hlen.symm
      rest := by
        show _ = c.bigEndianLengthBuffer ++
          (writeAt c.dataBuffer c.dataBufferLevel bs).take (c.dataBufferLevel + bs.length)
        rw [take_writeAt h.dataLevel.le, ← List.append_assoc]
        exact hrest
      payloads := h.payloads.trans hsplit.symm }

/-- The payload is complete. -/
theorem OnData.got_whole (h : OnData c)
    (hfull : c.dataBufferLevel + bs.length = c.dataBuffer.length) : OnTelegram (gotData c bs) := by
  have hlen := length_gotData hfull.le
  have hwhole : (gotData c bs).dataBuffer = c.dataBuffer.take c.dataBufferLevel ++ bs :=
    writeAt_full hfull
  obtain ⟨hsplit, hrest⟩ := feed_whole h.rest (c := bs) (h := c.bigEndianLengthBuffer)
    (p := (gotData c bs).dataBuffer) (by rw [hwhole, List.append_assoc]) h.buffer
    (hlen.trans h.data) h.limit
  exact
    { buffer := h.buffer
      reads := h.reads
      closings := h.closings
      level := h.level
      data := hlen.trans h.data
      limit := h.limit
      dataLevel := hfull.trans hlen.symm
      rest := hrest
      payloads := by
        show c.parsed ++ [(gotData c bs).dataBuffer] = lengthHeader.split (c.received ++ bs)
        rw [hsplit, h.payloads] }

end Payloads

/-- Reading on in a payload: it stays incomplete, or the telegram is whole. -/
theorem readData_position (k : Surroundings σ) {c : Conn σ} (h : OnData c) :
    (readData k c).Positioned := by
  have hlevel := h.dataLevel
  have hread : 0 < c.dataBuffer.length - c.dataBufferLevel ∧
      c.dataBufferLevel + (c.dataBuffer.length - c.dataBufferLevel) ≤ c.dataBuffer.length := by
    omega
  rcases hr : socketReceive (c.dataBuffer.length - c.dataBufferLevel) c.socket with ⟨r, es⟩
  have hlog := h.toLogged.read (r := ⟨c.dataBufferLevel, _, c.dataBuffer.length⟩) hread es
  have hsame : OnData { c with
      socket := es,
      reads := c.reads ++ [⟨c.dataBufferLevel, c.dataBuffer.length - c.dataBufferLevel,
        c.dataBuffer.length⟩] } := { h with toLogged := hlog }
  cases r with
  | wouldBlock => simp only [readData, hr]; exact .inr (.inl hsame)
  | error => simp only [readData, hr]; exact hsame.giveUp k (-1)
  | close => simp only [readData, hr]; exact hsame.giveUp k 0
  | bytes bs =>
      obtain ⟨-, hle, -⟩ := socketReceive_bytes (by omega) hr
      simp only [readData, hr]
      by_cases hfull : c.dataBufferLevel + bs.length = c.dataBuffer.length
      · exact .inr (.inr (hsame.got_whole hfull))
      · have hnew : c.dataBufferLevel + bs.length < c.dataBuffer.length := by omega
        exact .inr (.inl (hsame.got_more hnew))

/-- A complete telegram is handed over as it was received. -/
theorem handleTelegram_position (k : Surroundings σ) {c : Conn σ} (h : OnTelegram c) :
    (handleTelegram k c).Positioned := by
  have hpayload : (c.dataBuffer ++ [0]).take ((c.dataBuffer ++ [0]).length - 1)
      = c.dataBuffer := by
    rw [List.length_append, List.length_singleton, Nat.add_sub_cancel, List.take_left]
  rcases hk : k.telegram c.peer c.dataBuffer with ⟨p, ⟨threw, restarted⟩⟩
  have hlog : Logged { c with
      dataBuffer := c.dataBuffer ++ [0], parsed := c.parsed ++ [c.dataBuffer], peer := p } :=
    { h.toLogged with }
  simp only [handleTelegram, hpayload, hk]
  cases restarted with
  | true =>
      -- whatever happens next, a new connection begins at its first byte
      have hstart := hlog.start
      cases threw with
      | true => exact .inl hstart
      | false => exact .inl hstart
  | false =>
      cases threw with
      | true =>
          exact .inr (.inr (.inr
            { hlog with
              level := h.level
              data := by
                show (c.dataBuffer ++ [0]).length = _
                rw [List.length_append, List.length_singleton, h.data]
                rfl
              rest := h.rest
              payloads := h.payloads }))
      | false =>
          exact .inl
            { buffer := h.buffer
              closings := h.closings
              reads := h.reads
              level := show 0 < lengthBufferSize by decide
              data := rfl
              dataLevel := rfl
              rest := h.rest
              payloads := h.payloads }

theorem receiveStep_position (k : Surroundings σ) {c : Conn σ} (h : InLoop c) :
    (receiveStep k c).Positioned := by
  unfold receiveStep
  rcases h with h | h | h
  · rw [if_pos h.level]
    exact readLength_position k h
  · rw [if_neg (by rw [h.level]; exact lt_irrefl _), if_pos h.dataLevel]
    exact readData_position k h
  · rw [if_neg (by rw [h.level]; exact lt_irrefl _),
      if_neg (by rw [h.dataLevel]; exact lt_irrefl _)]
    exact handleTelegram_position k h

/-- **One call of `receive`** entered in a resumable position ends at rest. -/
theorem receive_atRest (k : Surroundings σ) {c : Conn σ} (h : InLoop c) :
    AtRest (receive k c).1 := by
  refine receive_rule (k := k) (I := InLoop) (Q := fun c _ => AtRest c) ?_ ?_ c h
  · intro c c' hc hstep
    have := receiveStep_position k hc
    rwa [hstep] at this
  · intro c c' r hc hstep
    have := receiveStep_position k hc
    rwa [hstep] at this

/-! ### Runs of the connection -/

/-- What can happen to the connection of a peer.  `resume()` is `start` as
far as the buffers go, whether or not the connection is made. -/
inductive ConnAction (σ : Type*) where
  | start
  | stop
  | receive (socket : List SocketEvent)
  | other (peer : σ)

def connMachine (k : Surroundings σ) : Machine (Conn σ) (ConnAction σ) where
  step c
    | .start => some (start c)
    | .stop => some (stop k c)
    | .receive socket => some (receive k { c with socket := socket }).1
    | .other peer => some { c with peer := peer }

/-- `receive` is only entered where the members allow it. -/
def ReceiveResumable : Conn σ → ConnAction σ → Prop
  | c, .receive _ => Resumable c
  | _, _ => True

theorem connMachine_step_atRest {k : Surroundings σ} {c c' : Conn σ} {a : ConnAction σ}
    (h : AtRest c) (hC : ReceiveResumable c a) (hstep : (connMachine k).step c a = some c') :
    AtRest c' := by
  cases a with
  | start =>
      obtain rfl := Option.some.inj hstep
      exact .inl h.logged.start
  | stop =>
      obtain rfl := Option.some.inj hstep
      exact h.stop k
  | receive socket =>
      obtain rfl := Option.some.inj hstep
      refine receive_atRest k (AtRest.inLoop ?_ hC)
      rcases h with h | h | h | h
      · exact .inl { h with }
      · exact .inr (.inl { h with })
      · exact .inr (.inr (.inl { h with }))
      · exact .inr (.inr (.inr { h with }))
  | other peer =>
      obtain rfl := Option.some.inj hstep
      rcases h with h | h | h | h
      · exact .inl { h with }
      · exact .inr (.inl { h with })
      · exact .inr (.inr (.inl { h with }))
      · exact .inr (.inr (.inr { h with }))

/-- The connection the constructor's `start()` leaves. -/
def freshConn (peer : σ) : Conn σ := start { peer := peer }

theorem freshConn_atRest (peer : σ) : AtRest (freshConn peer) :=
  .inl (Logged.start ⟨rfl, by simp, by simp⟩)

/-! ### How long a call takes -/

/-- A turn that goes on reads at most what it takes from the socket. -/
theorem receiveStep_reads {k : Surroundings σ} {c c' : Conn σ}
    (h : receiveStep k c = .next c') :
    c'.reads.length + socketWeight c'.socket ≤ c.reads.length + socketWeight c.socket := by
  unfold receiveStep at h
  split_ifs at h with hl hd
  · rcases hr : socketReceive (lengthBufferSize - c.lengthBufferLevel) c.socket with ⟨r, es⟩
    cases r with
    | bytes bs =>
        obtain ⟨-, -, hw⟩ := socketReceive_bytes (by omega) hr
        have hc' : c'.socket = es ∧ c'.reads.length = c.reads.length + 1 := by
          simp only [readLength, hr, giveUp] at h
          split_ifs at h <;> cases h <;> exact ⟨rfl, List.length_append⟩
        rw [hc'.1, hc'.2]
        omega
    | wouldBlock => simp [readLength, hr] at h
    | error => simp [readLength, hr, giveUp] at h
    | close => simp [readLength, hr, giveUp] at h
  · rcases hr : socketReceive (c.dataBuffer.length - c.dataBufferLevel) c.socket with ⟨r, es⟩
    cases r with
    | bytes bs =>
        obtain ⟨-, -, hw⟩ := socketReceive_bytes (by omega) hr
        have hc' : c'.socket = es ∧ c'.reads.length = c.reads.length + 1 := by
          simp only [readData, hr] at h
          cases h
          exact ⟨rfl, List.length_append⟩
        rw [hc'.1, hc'.2]
        omega
    | wouldBlock => simp [readData, hr] at h
    | error => simp [readData, hr, giveUp] at h
    | close => simp [readData, hr, giveUp] at h
  · have hc' : c'.socket = c.socket ∧ c'.reads = c.reads := by
      simp only [handleTelegram] at h
      split_ifs at h <;> cases h <;> exact ⟨rfl, rfl⟩
    rw [hc'.1, hc'.2]

theorem stop_reads (k : Surroundings σ) (c : Conn σ) : (stop k c).reads = c.reads := by
  simp only [stop]
  split_ifs <;> rfl

/-- A turn that returns has read once more at most. -/
theorem receiveStep_reads_done {k : Surroundings σ} {c c' : Conn σ} {r : Return}
    (h : receiveStep k c = .done c' r) : c'.reads.length ≤ c.reads.length + 1 := by
  unfold receiveStep at h
  split_ifs at h with hl hd
  · have hc' : c'.reads.length = c.reads.length + 1 := by
      simp only [readLength, giveUp] at h
      split at h
      · cases h; exact List.length_append
      · cases h; rw [stop_reads]; exact List.length_append
      · cases h; rw [stop_reads]; exact List.length_append
      · split_ifs at h
        cases h; rw [stop_reads]; exact List.length_append
    exact hc'.le
  · have hc' : c'.reads.length = c.reads.length + 1 := by
      simp only [readData, giveUp] at h
      split at h
      · cases h; exact List.length_append
      · cases h; rw [stop_reads]; exact List.length_append
      · cases h; rw [stop_reads]; exact List.length_append
      · cases h
    exact hc'.le
  · have hc' : c'.reads = c.reads := by
      simp only [handleTelegram] at h
      split_ifs at h <;> cases h <;> rfl
    rw [hc']
    exact Nat.le_succ _

/-- One call reads the socket at most once for every byte and event in store,
and once more. -/
theorem receive_reads (k : Surroundings σ) (c : Conn σ) :
    (receive k c).1.reads.length ≤ c.reads.length + socketWeight c.socket + 1 := by
  refine receive_rule (k := k)
    (I := fun d => d.reads.length + socketWeight d.socket
      ≤ c.reads.length + socketWeight c.socket)
    (Q := fun d _ => d.reads.length ≤ c.reads.length + socketWeight c.socket + 1)
    ?_ ?_ c le_rfl
  · intro d d' hd hstep
    exact (receiveStep_reads hstep).trans hd
  · intro d d' r hd hstep
    have := receiveStep_reads_done hstep
    omega

/-! ### Main result -/

/-- **Frame decoding does not depend on how the bytes arrive**, nor on what
earlier connections left behind, as long as `receive` is entered in
resumable positions only; and every call comes to an end. -/
theorem receive_framesExact {k : Surroundings σ} {peer : σ} {as : List (ConnAction σ)}
    {c : Conn σ} (h : (connMachine k).Run ReceiveResumable (freshConn peer) as c) :
    FramesExact c ∧ ∀ socket : List SocketEvent,
      (receive k { c with socket := socket }).1.reads.length
        ≤ c.reads.length + socketWeight socket + 1 :=
  ⟨(h.invariant (freshConn_atRest peer) fun _ _ _ => connMachine_step_atRest).framesExact,
    fun socket => receive_reads k { c with socket := socket }⟩

/-- Surroundings in which nothing throws and nobody resumes. -/
def quiet : Surroundings Unit where
  telegram := fun _ _ => ((), ⟨false, false⟩)
  stop := fun _ => ((), false)

/-- One telegram, `{}`, cut in the middle of its length and of its payload. -/
def cutTelegram : List SocketEvent := [.bytes 0 [0], .bytes 0 [2, 123], .bytes 125 []]

theorem receive_framesExact_cut :
    ∃ c, (connMachine quiet).Run ReceiveResumable (freshConn ()) [.receive cutTelegram] c ∧
      FramesExact c ∧ c.parsed = [[123, 125]] := by
  have h : (connMachine quiet).Run ReceiveResumable (freshConn ()) [.receive cutTelegram]
      (receive quiet { freshConn () with socket := cutTelegram }).1 :=
    Machine.Run.single (Or.inl (by decide)) rfl
  refine ⟨_, h, (receive_framesExact h).1, ?_⟩
  rw [receive_of_next rfl, receive_of_next rfl, receive_of_next rfl, receive_of_next rfl,
    receive_of_next rfl, receive_of_done rfl]
  rfl

/-- The announcement of 262145 bytes. -/
def oversizeLength : List SocketEvent := [.bytes 0 [4, 0, 1]]

/-- Entered again after a length over the limit, `receive` hands the parser
an empty payload that is not in the stream. -/
theorem oversize_then_receive_not_exact :
    ∃ c, (connMachine quiet).Run Machine.Always (freshConn ())
        [.receive oversizeLength, .receive []] c ∧ ¬ FramesExact c := by
  have hfirst : receive quiet { freshConn () with socket := oversizeLength } =
      ({ freshConn () with
          bigEndianLengthBuffer := [0, 4, 0, 1], lengthBufferLevel := 4,
          received := [0, 4, 0, 1], reads := [⟨0, 4, 4⟩],
          closings := [⟨[0, 4, 0, 1], -1⟩] }, .value (-1)) :=
    receive_of_done rfl
  have hrun : (connMachine quiet).Run Machine.Always (freshConn ())
      [.receive oversizeLength, .receive []]
      (receive quiet
        { (receive quiet { freshConn () with socket := oversizeLength }).1 with
          socket := [] }).1 :=
    (Machine.Run.single trivial rfl).append (Machine.Run.single trivial rfl)
  refine ⟨_, hrun, fun h => ?_⟩
  have hpayloads := h.payloads
  rw [hfirst, receive_of_next rfl, receive_of_done rfl] at hpayloads
  -- the parser was called once, the stream has no telegram
  have hsplit : lengthHeader.split [0, 4, 0, 1] = [] :=
    lengthHeader.split_of_not_starts (not_starts_of_oversize rfl (by decide))
  have hparsed : [[]] = lengthHeader.split [0, 4, 0, 1] := hpayloads
  rw [hsplit] at hparsed
  exact absurd hparsed (List.cons_ne_nil _ _)

end JetPeer
