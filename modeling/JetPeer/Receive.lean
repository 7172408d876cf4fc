/-
JetPeer/Receive.lean

`PeerAsync::receive` with the members it keeps between calls, and the parts
of `start` and `stop` that touch them.

The function is two nested resumable loops over three members: the length
level, the data buffer (whose *size* is the announced length) and the data
level.  Every turn of the loops is one of three steps, chosen by those
members alone, and `receive` repeats them until one returns.

Everything outside the buffers is a parameter.  `Surroundings.telegram` is
what happens to a complete payload (`m_reader->parse` and, if it succeeds,
`receiveCallback`): it may throw, and code it calls may enter `start()`
through `resume()`.  `Surroundings.stop` is what `stop()` does besides
disconnecting; the fetch callbacks it runs may resume as well.

Ghost members record what the theorems speak about: the bytes received since
the last `start()`, the payloads handed to the parser since then, every
socket read, and the moments `receive` gave the connection up.
-/
import JetPeer.Defines

namespace JetPeer

/-! ### The socket -/

/-- What the socket has in store: the next bytes, cut anywhere, or one of the
ways a read returns none. -/
inductive SocketEvent where
  | bytes (first : UInt8) (more : List UInt8)
  | wouldBlock
  | error
  | close

/-- The result of one `m_socket.receive`. -/
inductive SocketResult where
  | bytes (bs : List UInt8)
  | wouldBlock
  | error
  | close

/-- `m_socket.receive(buffer, n)`: at most `n` of the next bytes; a socket
with nothing in store would block. -/
def socketReceive (n : ℕ) : List SocketEvent → SocketResult × List SocketEvent
  | [] => (.wouldBlock, [])
  | .bytes first more :: es =>
      (.bytes ((first :: more).take n),
        match (first :: more).drop n with
        | [] => es
        | b :: bs => .bytes b bs :: es)
  | .wouldBlock :: es => (.wouldBlock, es)
  | .error :: es => (.error, es)
  | .close :: es => (.close, es)

/-- What is in store, counted so that every read of a non-empty range lowers
it. -/
def SocketEvent.weight : SocketEvent → ℕ
  | .bytes _ more => more.length + 1
  | _ => 1

def socketWeight (es : List SocketEvent) : ℕ := (es.map SocketEvent.weight).sum

/-! ### The members of the peer -/

/-- One socket read: the range asked for and the size of the buffer. -/
structure SocketRead where
  offset : ℕ
  size : ℕ
  capacity : ℕ

/-- `receive` gives the connection up: the bytes received so far on it, and
the value returned. -/
structure Closing where
  received : List UInt8
  result : Int

/-- The members `receive` works on, with `peer` for all others. -/
structure Conn (σ : Type*) where
  bigEndianLengthBuffer : List UInt8 := List.replicate lengthBufferSize 0
  lengthBufferLevel : ℕ := 0
  dataBuffer : List UInt8 := []
  dataBufferLevel : ℕ := 0
  peer : σ
  socket : List SocketEvent := []
  received : List UInt8 := []
  parsed : List (List UInt8) := []
  reads : List SocketRead := []
  closings : List Closing := []

/-- What became of a telegram. -/
structure Handled where
  /-- An exception left `receiveCallback`. -/
  threw : Bool
  /-- Code it called entered `start()`. -/
  restarted : Bool

/-- The parts of the peer `receive` calls. -/
structure Surroundings (σ : Type*) where
  telegram : σ → List UInt8 → σ × Handled
  stop : σ → σ × Bool

/-- How `receive` ends. -/
inductive Return where
  | value (result : Int)
  | exception
  deriving DecidableEq

/-- One turn of `receive`: it goes on, or it returns. -/
inductive Progress (σ : Type*) where
  | next (c : Conn σ)
  | done (c : Conn σ) (r : Return)

variable {σ : Type*}

/-- The first lines of `start()`: all buffers are cleared.  Whatever comes in
from now on belongs to a new connection. -/
def start (c : Conn σ) : Conn σ :=
  { c with
    lengthBufferLevel := 0, dataBuffer := [], dataBufferLevel := 0,
    received := [], parsed := [] }

/-- `stop()`: nothing in it touches the buffers, unless code it calls enters
`start()`. -/
def stop (k : Surroundings σ) (c : Conn σ) : Conn σ :=
  let (peer, restarted) := k.stop c.peer
  let c := { c with peer := peer }
  if restarted then start c else c

/-- `stop(); return result;`. -/
def giveUp (k : Surroundings σ) (result : Int) (c : Conn σ) : Progress σ :=
  .done (stop k { c with closings := c.closings ++ [⟨c.received, result⟩] }) (.value result)

/-- `buffer[offset ..] = bs`. -/
def writeAt (buffer : List UInt8) (offset : ℕ) (bs : List UInt8) : List UInt8 :=
  buffer.take offset ++ bs ++ buffer.drop (offset + bs.length)

/-- `std::vector::resize(n)`. -/
def resize (buffer : List UInt8) (n : ℕ) : List UInt8 :=
  buffer.take n ++ List.replicate (n - buffer.length) 0

/-! ### The loops -/

/-- A turn of `while (m_lengthBufferLevel < sizeof(m_bigEndianLengthBuffer))`. -/
def readLength (k : Surroundings σ) (c : Conn σ) : Progress σ :=
  let n := lengthBufferSize - c.lengthBufferLevel
  let (result, socket) := socketReceive n c.socket
  let c := { c with
    socket := socket, reads := c.reads ++ [⟨c.lengthBufferLevel, n, lengthBufferSize⟩] }
  match result with
  | .wouldBlock => .done c (.value 0)
  | .error => giveUp k (-1) c
  | .close => giveUp k 0 c
  | .bytes bs =>
      let c := { c with
        received := c.received ++ bs
        bigEndianLengthBuffer := writeAt c.bigEndianLengthBuffer c.lengthBufferLevel bs
        lengthBufferLevel := c.lengthBufferLevel + bs.length }
      if c.lengthBufferLevel = lengthBufferSize then
        let len := ntohl c.bigEndianLengthBuffer
        if maxMessageSize < len then giveUp k (-1) c
        else .next { c with dataBuffer := resize c.dataBuffer len }
      else .next c

/-- A turn of `while (m_dataBufferLevel < m_dataBuffer.size())`. -/
def readData (k : Surroundings σ) (c : Conn σ) : Progress σ :=
  let n := c.dataBuffer.length - c.dataBufferLevel
  let (result, socket) := socketReceive n c.socket
  let c := { c with
    socket := socket, reads := c.reads ++ [⟨c.dataBufferLevel, n, c.dataBuffer.length⟩] }
  match result with
  | .wouldBlock => .done c (.value 0)
  | .error => giveUp k (-1) c
  | .close => giveUp k 0 c
  | .bytes bs =>
      .next { c with
        received := c.received ++ bs
        dataBuffer := writeAt c.dataBuffer c.dataBufferLevel bs
        dataBufferLevel := c.dataBufferLevel + bs.length }

/-- A complete data package: a terminator is appended, everything before it
is parsed and handled, and the buffers are cleared. -/
def handleTelegram (k : Surroundings σ) (c : Conn σ) : Progress σ :=
  let dataBuffer := c.dataBuffer ++ [0]
  let payload := dataBuffer.take (dataBuffer.length - 1)
  let (peer, handled) := k.telegram c.peer payload
  let c := { c with
    dataBuffer := dataBuffer, parsed := c.parsed ++ [payload], peer := peer }
  let c := if handled.restarted then start c else c
  -- an exception leaves `receive` before the buffers are cleared
  if handled.threw then .done c .exception
  else .next { c with dataBuffer := [], lengthBufferLevel := 0, dataBufferLevel := 0 }

def receiveStep (k : Surroundings σ) (c : Conn σ) : Progress σ :=
  if c.lengthBufferLevel < lengthBufferSize then readLength k c
  else if c.dataBufferLevel < c.dataBuffer.length then readData k c
  else handleTelegram k c

/-! ### Termination -/

/-- Every turn lowers this: a read takes from the socket, and a telegram is
followed by a read. -/
def Conn.remaining (c : Conn σ) : ℕ :=
  2 * socketWeight c.socket +
    if c.lengthBufferLevel < lengthBufferSize ∨ c.dataBufferLevel < c.dataBuffer.length
    then 0 else 1

theorem socketReceive_bytes {n : ℕ} {es es' : List SocketEvent} {bs : List UInt8}
    (hn : 0 < n) (h : socketReceive n es = (.bytes bs, es')) :
    bs ≠ [] ∧ bs.length ≤ n ∧ socketWeight es' < socketWeight es := by
  cases es with
  | nil => simp [socketReceive] at h
  | cons e es =>
      cases e with
      | bytes first more =>
          obtain ⟨m, rfl⟩ : ∃ m, n = m + 1 := ⟨n - 1, by omega⟩
          simp only [socketReceive, List.take_succ_cons, List.drop_succ_cons,
            Prod.mk.injEq, SocketResult.bytes.injEq] at h
          obtain ⟨rfl, rfl⟩ := h
          refine ⟨List.cons_ne_nil _ _, ?_, ?_⟩
          · simp only [List.length_cons, List.length_take]; omega
          · have hlen : (more.drop m).length ≤ more.length := by simp
            cases hd : more.drop m with
            | nil => simp [socketWeight, SocketEvent.weight]
            | cons b bs =>
                rw [hd, List.length_cons] at hlen
                simp only [socketWeight, SocketEvent.weight, List.map_cons, List.sum_cons]
                omega
      | wouldBlock => simp [socketReceive] at h
      | error => simp [socketReceive] at h
      | close => simp [socketReceive] at h

theorem readLength_remaining {k : Surroundings σ} {c c' : Conn σ}
    (hc : c.lengthBufferLevel < lengthBufferSize) (h : readLength k c = .next c') :
    c'.remaining < c.remaining := by
  rcases hr : socketReceive (lengthBufferSize - c.lengthBufferLevel) c.socket with ⟨r, es⟩
  cases r with
  | bytes bs =>
      obtain ⟨-, -, hw⟩ := socketReceive_bytes (by omega) hr
      have hsocket : c'.socket = es := by
        simp only [readLength, hr, giveUp] at h
        split_ifs at h <;> cases h <;> rfl
      simp only [Conn.remaining, hsocket, hc, true_or, if_true]
      split_ifs <;> omega
  | wouldBlock => simp [readLength, hr] at h
  | error => simp [readLength, hr, giveUp] at h
  | close => simp [readLength, hr, giveUp] at h

theorem readData_remaining {k : Surroundings σ} {c c' : Conn σ}
    (hc : c.dataBufferLevel < c.dataBuffer.length) (h : readData k c = .next c') :
    c'.remaining < c.remaining := by
  rcases hr : socketReceive (c.dataBuffer.length - c.dataBufferLevel) c.socket with ⟨r, es⟩
  cases r with
  | bytes bs =>
      obtain ⟨-, -, hw⟩ := socketReceive_bytes (by omega) hr
      have hsocket : c'.socket = es := by
        simp only [readData, hr] at h
        cases h; rfl
      simp only [Conn.remaining, hsocket, hc, or_true, if_true]
      split_ifs <;> omega
  | wouldBlock => simp [readData, hr] at h
  | error => simp [readData, hr, giveUp] at h
  | close => simp [readData, hr, giveUp] at h

theorem handleTelegram_remaining {k : Surroundings σ} {c c' : Conn σ}
    (hl : ¬ c.lengthBufferLevel < lengthBufferSize)
    (hd : ¬ c.dataBufferLevel < c.dataBuffer.length) (h : handleTelegram k c = .next c') :
    c'.remaining < c.remaining := by
  have hc' : c'.socket = c.socket ∧ c'.lengthBufferLevel = 0 := by
    simp only [handleTelegram] at h
    split_ifs at h <;> cases h <;> exact ⟨rfl, rfl⟩
  have hsize : (0 : ℕ) < lengthBufferSize := by decide
  simp [Conn.remaining, hc'.1, hc'.2, hl, hd, hsize]

/-- **The loops terminate** on whatever the socket has in store. -/
theorem receiveStep_remaining {k : Surroundings σ} {c c' : Conn σ}
    (h : receiveStep k c = .next c') : c'.remaining < c.remaining := by
  unfold receiveStep at h
  split_ifs at h with hl hd
  · exact readLength_remaining hl h
  · exact readData_remaining hd h
  · exact handleTelegram_remaining hl hd h

/-- `PeerAsync::receive()`. -/
def receive (k : Surroundings σ) (c : Conn σ) : Conn σ × Return :=
  match _h : receiveStep k c with
  | .next c' => receive k c'
  | .done c' r => (c', r)
termination_by c.remaining
decreasing_by exact receiveStep_remaining (by assumption)

theorem receive_of_next {k : Surroundings σ} {c c' : Conn σ}
    (h : receiveStep k c = .next c') : receive k c = receive k c' := by
  rw [receive]
  split
  · rename_i d hd
    rw [h] at hd
    cases hd; rfl
  · rename_i d r hd
    rw [h] at hd
    cases hd

theorem receive_of_done {k : Surroundings σ} {c c' : Conn σ} {r : Return}
    (h : receiveStep k c = .done c' r) : receive k c = (c', r) := by
  rw [receive]
  split
  · rename_i d hd
    rw [h] at hd
    cases hd
  · rename_i d r' hd
    rw [h] at hd
    cases hd; rfl

/-- **The loop rule**: what every turn keeps until one returns with `Q`, the
whole of `receive` establishes as `Q`. -/
theorem receive_rule {k : Surroundings σ} {I : Conn σ → Prop} {Q : Conn σ → Return → Prop}
    (hnext : ∀ c c', I c → receiveStep k c = .next c' → I c')
    (hdone : ∀ c c' r, I c → receiveStep k c = .done c' r → Q c' r)
    (c : Conn σ) (h : I c) : Q (receive k c).1 (receive k c).2 := by
  rcases hs : receiveStep k c with c' | ⟨c', r⟩
  · rw [receive_of_next hs]
    exact receive_rule hnext hdone c' (hnext _ _ h hs)
  · rw [receive_of_done hs]
    exact hdone _ _ _ h hs
termination_by c.remaining
decreasing_by exact receiveStep_remaining (by assumption)

end JetPeer
