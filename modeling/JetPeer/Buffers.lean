/-
JetPeer/Buffers.lean

The buffers of `PeerAsync::receive`, whatever arrives and whenever `receive` is
entered.

Exact decoding needs `receive` to be entered in resumable positions
(`receive_framesExact`).  That no read leaves its buffer needs nothing: it
holds in every run (`receive_inBounds`).  The length over the limit is refused
before the data buffer is resized, so what a sender can make the peer hold is
limited as well, but for one thing.  The terminator `receive` appends to a
payload is taken away again when the buffers are cleared, and an exception
leaves `receive` before that.  So the data buffer may be larger than the limit
by one byte for each call that ended in an exception, and that is how it grows
(`exceptions_grow_buffer`).
-/
import JetPeer.Chunking

namespace JetPeer

open Runs

variable {σ : Type*} {k : Surroundings σ} {c c' : Conn σ} {n m : ℕ}

/-- The levels are in their buffers, and so were all reads; the data buffer
exceeds the limit by `n` bytes at most. -/
structure InBounds (n : ℕ) (c : Conn σ) : Prop where
  header : c.bigEndianLengthBuffer.length = lengthBufferSize
  level : c.lengthBufferLevel ≤ lengthBufferSize
  /-- While the length comes in, there is no data. -/
  empty : c.lengthBufferLevel < lengthBufferSize → c.dataBuffer = [] ∧ c.dataBufferLevel = 0
  dataLevel : c.dataBufferLevel ≤ c.dataBuffer.length
  size : c.dataBuffer.length ≤ maxMessageSize + n
  reads : ∀ r ∈ c.reads, 0 < r.size ∧ r.offset + r.size ≤ r.capacity ∧
    r.capacity ≤ maxMessageSize + n

theorem InBounds.mono (h : InBounds n c) (hnm : n ≤ m) : InBounds m c where
  header := h.header
  level := h.level
  empty := h.empty
  dataLevel := h.dataLevel
  size := h.size.trans (Nat.add_le_add_left hnm _)
  reads r hr := by
    obtain ⟨hpos, hin, hcap⟩ := h.reads r hr
    exact ⟨hpos, hin, hcap.trans (Nat.add_le_add_left hnm _)⟩

/-- `start()` clears all buffers. -/
theorem InBounds.start (h : InBounds n c) : InBounds n (start c) where
  header := h.header
  level := Nat.zero_le _
  empty _ := ⟨rfl, rfl⟩
  dataLevel := le_rfl
  size := Nat.zero_le _
  reads := h.reads

theorem InBounds.stop (h : InBounds n c) : InBounds n (stop k c) := by
  unfold JetPeer.stop
  have hpeer : InBounds n { c with peer := (k.stop c.peer).1 } := { h with }
  by_cases hrestarted : (k.stop c.peer).2 = true
  · simp only [hrestarted, if_true]
    exact hpeer.start
  · simp only [hrestarted]
    exact hpeer

/-- One more read. -/
theorem InBounds.read {r : SocketRead} {socket : List SocketEvent} (h : InBounds n c)
    (hr : 0 < r.size ∧ r.offset + r.size ≤ r.capacity ∧ r.capacity ≤ maxMessageSize + n) :
    InBounds n { c with socket := socket, reads := c.reads ++ [r] } where
  header := h.header
  level := h.level
  empty := h.empty
  dataLevel := h.dataLevel
  size := h.size
  reads r' hr' := by
    rcases List.mem_append.mp hr' with hold | hnew
    · exact h.reads r' hold
    · obtain rfl := List.mem_singleton.mp hnew
      exact hr

/-! ### One turn -/

/-- Where a turn leads, a turn that ends in an exception may leave one byte
more. -/
def Progress.InBounds (n : ℕ) : Progress σ → Prop
  | .next c => JetPeer.InBounds n c
  | .done c (.value _) => JetPeer.InBounds n c
  | .done c .exception => JetPeer.InBounds (n + 1) c

/-- The connection may be given up anywhere. -/
theorem giveUp_inBounds {v : Int} (h : InBounds n c) : (giveUp k v c).InBounds n := by
  have hclosing : InBounds n { c with closings := c.closings ++ [⟨c.received, v⟩] } := { h with }
  exact hclosing.stop

theorem length_resize (buffer : List UInt8) (n : ℕ) : (resize buffer n).length = n := by
  rw [resize, List.length_append, List.length_take, List.length_replicate]
  omega

/-- The length comes in; a length over the limit is refused before anything is
resized. -/
theorem readLength_inBounds (h : InBounds n c) (hl : c.lengthBufferLevel < lengthBufferSize) :
    (readLength k c).InBounds n := by
  have hsize : lengthBufferSize ≤ maxMessageSize + n := by
    have : lengthBufferSize ≤ maxMessageSize := by decide
    omega
  rcases hr : socketReceive (lengthBufferSize - c.lengthBufferLevel) c.socket with ⟨r, es⟩
  have hread : InBounds n { c with
      socket := es
      reads := c.reads ++ [⟨c.lengthBufferLevel, lengthBufferSize - c.lengthBufferLevel,
        lengthBufferSize⟩] } :=
    h.read ⟨Nat.sub_pos_of_lt hl, (Nat.add_sub_of_le hl.le).le, hsize⟩
  cases r with
  | wouldBlock =>
      simp only [readLength, hr]
      exact hread
  | error =>
      simp only [readLength, hr]
      exact giveUp_inBounds hread
  | close =>
      simp only [readLength, hr]
      exact giveUp_inBounds hread
  | bytes bs =>
      obtain ⟨-, hlen, -⟩ := socketReceive_bytes (Nat.sub_pos_of_lt hl) hr
      obtain ⟨hempty, hzero⟩ := h.empty hl
      have hheader : (writeAt c.bigEndianLengthBuffer c.lengthBufferLevel bs).length =
          lengthBufferSize := by
        rw [length_writeAt (by rw [h.header]; omega), h.header]
      -- the length has come in so far
      have hgot : InBounds n { c with
          socket := es
          reads := c.reads ++ [⟨c.lengthBufferLevel, lengthBufferSize - c.lengthBufferLevel,
            lengthBufferSize⟩]
          received := c.received ++ bs
          bigEndianLengthBuffer := writeAt c.bigEndianLengthBuffer c.lengthBufferLevel bs
          lengthBufferLevel := c.lengthBufferLevel + bs.length } :=
        { hread with
          header := hheader
          level := by
            show c.lengthBufferLevel + bs.length ≤ lengthBufferSize
            omega
          empty := fun _ => ⟨hempty, hzero⟩ }
      simp only [readLength, hr]
      split_ifs with hfull hlimit
      · exact giveUp_inBounds hgot
      · refine { hgot with empty := ?_, dataLevel := ?_, size := ?_ }
        · intro hlt
          exact absurd hfull hlt.ne
        · show c.dataBufferLevel ≤ _
          rw [hzero]
          exact Nat.zero_le _
        · show (resize _ _).length ≤ _
          rw [length_resize]
          omega
      · exact hgot

theorem readData_inBounds (h : InBounds n c) (hd : c.dataBufferLevel < c.dataBuffer.length)
    (hl : ¬ c.lengthBufferLevel < lengthBufferSize) : (readData k c).InBounds n := by
  rcases hr : socketReceive (c.dataBuffer.length - c.dataBufferLevel) c.socket with ⟨r, es⟩
  have hread : InBounds n { c with
      socket := es
      reads := c.reads ++ [⟨c.dataBufferLevel, c.dataBuffer.length - c.dataBufferLevel,
        c.dataBuffer.length⟩] } :=
    h.read ⟨Nat.sub_pos_of_lt hd, (Nat.add_sub_of_le hd.le).le, h.size⟩
  cases r with
  | wouldBlock =>
      simp only [readData, hr]
      exact hread
  | error =>
      simp only [readData, hr]
      exact giveUp_inBounds hread
  | close =>
      simp only [readData, hr]
      exact giveUp_inBounds hread
  | bytes bs =>
      obtain ⟨-, hlen, -⟩ := socketReceive_bytes (Nat.sub_pos_of_lt hd) hr
      have hwrite : (writeAt c.dataBuffer c.dataBufferLevel bs).length = c.dataBuffer.length :=
        length_writeAt (by omega)
      simp only [readData, hr]
      refine { hread with empty := fun hlt => absurd hlt hl, dataLevel := ?_, size := ?_ }
      · show c.dataBufferLevel + bs.length ≤ _
        rw [hwrite]
        omega
      · show (writeAt _ _ _).length ≤ _
        rw [hwrite]
        exact h.size

/-- The terminator makes room for itself; an exception leaves it there. -/
theorem handleTelegram_inBounds (h : InBounds n c)
    (hl : ¬ c.lengthBufferLevel < lengthBufferSize) : (handleTelegram k c).InBounds n := by
  rcases ht : k.telegram c.peer ((c.dataBuffer ++ [0]).take ((c.dataBuffer ++ [0]).length - 1))
    with ⟨peer, ⟨threw, restarted⟩⟩
  have hlength : (c.dataBuffer ++ [0]).length = c.dataBuffer.length + 1 := by simp
  have happended : ∀ payloads, InBounds (n + 1)
      { c with dataBuffer := c.dataBuffer ++ [0], parsed := payloads, peer := peer } := by
    intro payloads
    refine { h.mono (Nat.le_succ n) with
      empty := fun hlt => absurd hlt hl
      dataLevel := ?_
      size := ?_ }
    · show c.dataBufferLevel ≤ (c.dataBuffer ++ [0]).length
      rw [hlength]
      exact h.dataLevel.trans (Nat.le_succ _)
    · show (c.dataBuffer ++ [0]).length ≤ _
      rw [hlength]
      exact Nat.succ_le_succ h.size
  simp only [handleTelegram, ht]
  cases threw with
  | true =>
      cases restarted with
      | true => exact (happended _).start
      | false => exact happended _
  | false =>
      -- the buffers are cleared, whether or not somebody called `start()`
      cases restarted with
      | true | false =>
          exact {
            header := h.header
            level := Nat.zero_le _
            empty := fun _ => ⟨rfl, rfl⟩
            dataLevel := le_rfl
            size := Nat.zero_le _
            reads := h.reads }

theorem receiveStep_inBounds (h : InBounds n c) : (receiveStep k c).InBounds n := by
  unfold receiveStep
  split_ifs with hl hd
  · exact readLength_inBounds h hl
  · exact readData_inBounds h hd hl
  · exact handleTelegram_inBounds h hl

/-- A call that does not end in an exception leaves the bound as it was. -/
theorem receive_inBounds_of (h : InBounds n c) :
    InBounds (if (receive k c).2 = .exception then n + 1 else n) (receive k c).1 := by
  refine receive_rule (k := k) (I := InBounds n)
    (Q := fun c r => InBounds (if r = .exception then n + 1 else n) c) ?_ ?_ c h
  · intro c c' hc hstep
    have hprogress := receiveStep_inBounds (k := k) hc
    rw [hstep] at hprogress
    exact hprogress
  · intro c c' r hc hstep
    have hprogress := receiveStep_inBounds (k := k) hc
    rw [hstep] at hprogress
    cases r <;> exact hprogress

/-! ### Runs -/

/-- The calls of a run that may end in an exception. -/
def ConnAction.receives : ConnAction σ → Bool
  | .receive _ => true
  | _ => false

theorem freshConn_inBounds (peer : σ) : InBounds 0 (freshConn peer) where
  header := rfl
  level := Nat.zero_le _
  empty _ := ⟨rfl, rfl⟩
  dataLevel := le_rfl
  size := Nat.zero_le _
  reads _ hr := absurd hr List.not_mem_nil

theorem connMachine_step_inBounds {a : ConnAction σ} (h : InBounds n c)
    (hstep : (connMachine k).step c a = some c') :
    InBounds (if a.receives then n + 1 else n) c' := by
  cases a with
  | start =>
      obtain rfl := Option.some.inj hstep
      exact h.start
  | stop =>
      obtain rfl := Option.some.inj hstep
      exact h.stop
  | receive socket =>
      obtain rfl := Option.some.inj hstep
      have hsocket : InBounds n { c with socket := socket } := { h with }
      show InBounds (n + 1) _
      refine (receive_inBounds_of (k := k) hsocket).mono ?_
      split_ifs <;> omega
  | other peer =>
      obtain rfl := Option.some.inj hstep
      exact { h with }

/-! ### Where nothing throws -/

/-- A turn that does not end in an exception. -/
def Progress.Returns : Progress σ → Prop
  | .done _ .exception => False
  | _ => True

/-- An exception that leaves `receive` has left `receiveCallback`. -/
theorem receiveStep_returns (hk : ∀ s payload, (k.telegram s payload).2.threw = false)
    (c : Conn σ) : (receiveStep k c).Returns := by
  unfold receiveStep
  split_ifs with hl hd
  · rcases hr : socketReceive (lengthBufferSize - c.lengthBufferLevel) c.socket with ⟨r, es⟩
    cases r with
    | bytes bs =>
        simp only [readLength, hr]
        split_ifs <;> trivial
    | wouldBlock | error | close =>
        simp only [readLength, hr]
        trivial
  · rcases hr : socketReceive (c.dataBuffer.length - c.dataBufferLevel) c.socket with ⟨r, es⟩
    cases r with
    | bytes | wouldBlock | error | close =>
        simp only [readData, hr]
        trivial
  · simp only [handleTelegram, hk]
    trivial

theorem receive_inBounds_quiet (hk : ∀ s payload, (k.telegram s payload).2.threw = false)
    (h : InBounds n c) : InBounds n (receive k c).1 := by
  have hreturns : (receive k c).2 ≠ .exception := by
    refine receive_rule (k := k) (I := fun _ => True) (Q := fun _ r => r ≠ .exception)
      (fun _ _ _ _ => trivial) ?_ c trivial
    rintro c c' r - hstep rfl
    have hreturns := receiveStep_returns hk c
    rw [hstep] at hreturns
    exact hreturns
  have hbounds := receive_inBounds_of (k := k) h
  rwa [if_neg hreturns] at hbounds

/-! ### Main result -/

/-- **No read leaves its buffer, and no sender makes the data buffer larger
than the limit**, but for one byte for each call of `receive`, in every run of
`start()`, `stop()` and `receive()` over any bytes.  Where no exception leaves
`receiveCallback`, the limit is kept. -/
theorem receive_inBounds {peer : σ} {as : List (ConnAction σ)}
    (h : (connMachine k).Run Machine.Always (freshConn peer) as c) :
    InBounds (as.countP ConnAction.receives) c ∧
      ((∀ s payload, (k.telegram s payload).2.threw = false) → InBounds 0 c) := by
  constructor
  · induction h with
    | nil => exact freshConn_inBounds peer
    | @snoc as c a c' _ _ hstep ih =>
        refine (connMachine_step_inBounds ih hstep).mono ?_
        rw [List.countP_append, List.countP_singleton]
        split_ifs <;> omega
  · intro hk
    refine h.invariant (freshConn_inBounds peer) fun c a c' hc _ hstep => ?_
    cases a with
    | receive socket =>
        obtain rfl := Option.some.inj hstep
        have hsocket : InBounds 0 { c with socket := socket } := { hc with }
        exact receive_inBounds_quiet hk hsocket
    | start | stop | other peer => exact connMachine_step_inBounds hc hstep

theorem receive_inBounds_oversize :
    ∃ c, (connMachine quiet).Run Machine.Always (freshConn ())
        [.receive oversizeLength, .receive []] c ∧ InBounds 2 c ∧ InBounds 0 c := by
  have h : (connMachine quiet).Run Machine.Always (freshConn ())
      [.receive oversizeLength, .receive []] _ :=
    (Machine.Run.single trivial rfl).append (Machine.Run.single trivial rfl)
  obtain ⟨hbounds, hquiet⟩ := receive_inBounds h
  exact ⟨_, h, hbounds, hquiet fun _ _ => rfl⟩

/-! ### How the data buffer grows -/

/-- Surroundings in which every telegram throws. -/
def throwing : Surroundings Unit where
  telegram := fun _ _ => ((), ⟨true, false⟩)
  stop := fun _ => ((), false)

/-- `receive` has been left by an exception: the terminator is the last of `n`
bytes, and the level is in front of it. -/
structure LeftBehind (n : ℕ) (c : Conn Unit) : Prop where
  level : c.lengthBufferLevel = lengthBufferSize
  dataLevel : c.dataBufferLevel + 1 = n
  size : c.dataBuffer.length = n

theorem handleTelegram_throwing {c : Conn Unit} (hl : c.lengthBufferLevel = lengthBufferSize)
    (hd : c.dataBufferLevel = c.dataBuffer.length) :
    ∃ c', receive throwing c = (c', .exception) ∧ LeftBehind (c.dataBuffer.length + 1) c' := by
  have hstep : receiveStep throwing c = handleTelegram throwing c := by
    rw [receiveStep, if_neg (by omega), if_neg (by omega)]
  refine ⟨_, receive_of_done (hstep.trans rfl), hl, ?_, List.length_append⟩
  show c.dataBufferLevel + 1 = _
  rw [hd]

/-- One byte makes a whole telegram of what is left. -/
theorem leftBehind_receive {c : Conn Unit} (h : LeftBehind n c) (b : UInt8) :
    LeftBehind (n + 1) (receive throwing { c with socket := [.bytes b []] }).1 := by
  have hsize : c.dataBuffer.length - c.dataBufferLevel = 1 := by
    rw [h.size, ← h.dataLevel]
    omega
  have hread : socketReceive 1 [.bytes b []] = (.bytes [b], []) := rfl
  have hlt : c.dataBufferLevel < c.dataBuffer.length := by
    rw [h.size, ← h.dataLevel]
    omega
  have hwrite : (writeAt c.dataBuffer c.dataBufferLevel [b]).length = c.dataBuffer.length :=
    length_writeAt hlt
  have hstep : receiveStep throwing { c with socket := [.bytes b []] } = .next { c with
      socket := []
      reads := c.reads ++ [⟨c.dataBufferLevel, 1, c.dataBuffer.length⟩]
      received := c.received ++ [b]
      dataBuffer := writeAt c.dataBuffer c.dataBufferLevel [b]
      dataBufferLevel := c.dataBufferLevel + 1 } := by
    have hl : ¬ c.lengthBufferLevel < lengthBufferSize := by
      rw [h.level]
      exact lt_irrefl _
    rw [receiveStep, if_neg hl, if_pos hlt]
    simp only [readData, hsize, hread]
    rfl
  rw [receive_of_next hstep]
  obtain ⟨c', heq, hc'⟩ := handleTelegram_throwing
    (c := { c with
      socket := []
      reads := c.reads ++ [⟨c.dataBufferLevel, 1, c.dataBuffer.length⟩]
      received := c.received ++ [b]
      dataBuffer := writeAt c.dataBuffer c.dataBufferLevel [b]
      dataBufferLevel := c.dataBufferLevel + 1 }) h.level
    (by rw [hwrite, h.size]; exact h.dataLevel)
  rw [heq]
  have hn : (writeAt c.dataBuffer c.dataBufferLevel [b]).length + 1 = n + 1 := by
    rw [hwrite, h.size]
  rw [← hn]
  exact hc'

/-- **Exceptions make the data buffer grow without a limit**, one byte a
call: an empty telegram, and then single bytes. -/
theorem exceptions_grow_buffer (n : ℕ) :
    ∃ as c, (connMachine throwing).Run Machine.Always (freshConn ()) as c ∧
      as.countP ConnAction.receives = n + 1 ∧ LeftBehind (n + 1) c := by
  induction n with
  | zero =>
      have hstep : receiveStep throwing { freshConn () with socket := [.bytes 0 [0, 0, 0]] } =
          .next { freshConn () with
            lengthBufferLevel := 4
            received := [0, 0, 0, 0]
            reads := [⟨0, 4, 4⟩] } := rfl
      obtain ⟨c, heq, hc⟩ := handleTelegram_throwing
        (c := { freshConn () with
          lengthBufferLevel := 4
          received := [0, 0, 0, 0]
          reads := [⟨0, 4, 4⟩] }) rfl rfl
      refine ⟨[.receive [.bytes 0 [0, 0, 0]]], _, Machine.Run.single trivial rfl, rfl, ?_⟩
      show LeftBehind 1 (receive throwing { freshConn () with socket := _ }).1
      rw [receive_of_next hstep, heq]
      exact hc
  | succ n ih =>
      obtain ⟨as, c, hrun, hcount, hc⟩ := ih
      refine ⟨as ++ [.receive [.bytes 32 []]], _, hrun.snoc trivial rfl, ?_,
        leftBehind_receive hc 32⟩
      rw [List.countP_append, hcount]
      rfl

end JetPeer
