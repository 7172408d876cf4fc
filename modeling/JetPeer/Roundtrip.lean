/-
JetPeer/Roundtrip.lean

Receiving undoes sending.

The wire of `Senders` is a stream of the accepted texts (`Composed`), and
`receive` does to a peer what `deliver` does with the payloads of a stream
(`receiveAll_deliver`); a parser that inverts the writer then hands over
the accepted values in their order.

Both sides compare the length with the same limit in the same way, so this
is all there is to say about lengths.  What can come in between is on the
receiving side: a value on which `receiveCallback` lets an exception out is
the last one that is handed over (`Undisturbed`).
-/
import JetPeer.Delivery
import JetPeer.Dispatch

namespace JetPeer

open Runs Framing Framing.Header

variable {env : Env} {parse : List UInt8 → Parsed} {stop : Peer → Peer × Bool}
  {writeString : Json → List UInt8}

/-! ### The values handed over -/

/-- The value `receiveCallback` is called with. -/
def Parsed.values : Parsed → List Json
  | .value data => [data]
  | _ => []

/-- A peer with a log of the values handed to its `receiveCallback`. -/
def loggedSurroundings (env : Env) (parse : List UInt8 → Parsed) (stop : Peer → Peer × Bool) :
    Surroundings (Peer × List Json) where
  telegram s payload :=
    let (p, h) := (peerSurroundings env parse stop).telegram s.1 payload
    ((p, s.2 ++ (parse payload).values), h)
  stop s :=
    let (p, restarted) := stop s.1
    ((p, s.2), restarted)

/-- No value but the last one makes `receiveCallback` throw. -/
def Undisturbed (env : Env) : Peer → List Json → Prop
  | _, [] => True
  | s, v :: vs => vs = [] ∨
      ((receiveCallback env v s).2.threw = false ∧ Undisturbed env (receiveCallback env v s).1 vs)

theorem telegram_writeString {v : Json} (h : parse (writeString v) = .value v)
    (s : Peer × List Json) :
    (loggedSurroundings env parse stop).telegram s (writeString v)
      = (((receiveCallback env v s.1).1, s.2 ++ [v]), (receiveCallback env v s.1).2) := by
  simp only [loggedSurroundings, peerSurroundings, h]
  rfl

/-- `deliver` hands over all values exactly if it is not disturbed. -/
theorem deliver_handed {vs : List Json} (hparse : ∀ v ∈ vs, parse (writeString v) = .value v)
    (s : Peer) (l : List Json) :
    (deliver (loggedSurroundings env parse stop) (s, l) (vs.map writeString)).1.2 = l ++ vs ↔
      Undisturbed env s vs := by
  induction vs generalizing s l with
  | nil => exact ⟨fun _ => trivial, fun _ => (List.append_nil l).symm⟩
  | cons v vs ih =>
      have hv := hparse v List.mem_cons_self
      rw [List.map_cons, deliver, telegram_writeString hv, Undisturbed]
      cases hthrew : (receiveCallback env v s).2.threw with
      | true =>
          -- the log ends with this value
          rw [if_pos rfl]
          constructor
          · intro h
            have hvs : [v] = v :: vs := List.append_cancel_left h
            exact .inl (List.cons.inj hvs).2.symm
          · rintro (rfl | ⟨h, -⟩)
            · rfl
            · cases h
      | false =>
          have hcons : l ++ v :: vs = (l ++ [v]) ++ vs := by simp
          rw [if_neg Bool.false_ne_true, hcons]
          refine (ih (fun w hw => hparse w (List.mem_cons_of_mem _ hw)) _ _).trans ?_
          constructor
          · intro h
            exact .inr ⟨rfl, h⟩
          · rintro (rfl | ⟨-, h⟩)
            · trivial
            · exact h

/-! ### Main result -/

/-- What is handed over of the bytes on the wire. -/
theorem receiveAll_handed {as : List SendAction} {s : Senders} {c : Conn (Peer × List Json)}
    {calls : List (List SocketEvent)}
    (hrun : (sendMachine writeString).Run Machine.Always {} as s)
    (hparse : ∀ v ∈ s.accepted, parse (writeString v) = .value v)
    (hc : Reading c) (hboundary : lengthHeader.rest c.received = []) (hlog : c.peer.2 = [])
    (honly : ∀ es ∈ calls, BytesOnly es) (hbytes : calls.flatMap storedBytes = s.wire) :
    (receiveAll (loggedSurroundings env parse stop) c calls).1.peer.2 = s.accepted ↔
      Undisturbed env c.peer.1 s.accepted := by
  have hcomposed := sendMachine_composed hrun
  have hps : ∀ p ∈ s.accepted.map writeString, p.length ≤ maxMessageSize := by
    intro p hp
    obtain ⟨v, hv, rfl⟩ := List.mem_map.mp hp
    exact hcomposed.accepted v hv
  have hstream := hbytes.trans hcomposed.wire
  obtain ⟨hsplit, hrest⟩ := lengthHeader.split_stream hps []
  rw [List.append_nil, lengthHeader.split_nil, List.append_nil] at hsplit
  rw [List.append_nil, lengthHeader.rest_nil] at hrest
  have hwhole : Completable (c.received ++ calls.flatMap storedBytes) := by
    refine ⟨[], ?_⟩
    rw [List.append_nil, (lengthHeader.split_append _ _).2, hboundary, List.nil_append, hstream,
      hrest]
  obtain ⟨hpeer, -⟩ := receiveAll_deliver (loggedSurroundings env parse stop) calls hc honly hwhole
  rw [hboundary, List.nil_append, hstream, hsplit] at hpeer
  rw [(Prod.mk.inj hpeer).1]
  have hstart : c.peer = (c.peer.1, []) := Prod.ext rfl hlog
  rw [hstart]
  exact deliver_handed hparse c.peer.1 []

/-- **Receiving undoes sending**: whatever the threads on one side and the
chunking on the other, the values handed over are the accepted ones in the
order of the mutex, exactly if `receiveCallback` throws on none but the last
of them; a text of up to the limit is accepted, and a longer one puts nothing
on the wire. -/
theorem receive_undoes_send {as : List SendAction} {s : Senders} {c : Conn (Peer × List Json)}
    {calls : List (List SocketEvent)}
    (hrun : (sendMachine writeString).Run Machine.Always {} as s)
    (hparse : ∀ v ∈ s.accepted, parse (writeString v) = .value v)
    (hc : Reading c) (hboundary : lengthHeader.rest c.received = []) (hlog : c.peer.2 = [])
    (honly : ∀ es ∈ calls, BytesOnly es) (hbytes : calls.flatMap storedBytes = s.wire) :
    ((receiveAll (loggedSurroundings env parse stop) c calls).1.peer.2 = s.accepted ↔
        Undisturbed env c.peer.1 s.accepted) ∧
      (∀ v, (∃ frame, composeMessage writeString v = .ok frame) ↔
        (writeString v).length ≤ maxMessageSize) ∧
      ∀ v t u, maxMessageSize < (writeString v).length →
        (sendMachine writeString).step t (.call v) = some u →
          u.wire = t.wire ∧ u.waiting = t.waiting ∧ u.accepted = t.accepted := by
  refine ⟨receiveAll_handed hrun hparse hc hboundary hlog honly hbytes, ?_, ?_⟩
  · intro v
    constructor
    · rintro ⟨frame, h⟩
      exact (composeMessage_eq_ok.mp h).1
    · intro h
      exact ⟨_, composeMessage_eq_ok.mpr ⟨h, rfl⟩⟩
  · intro v t u hlen hstep
    have hc : composeMessage writeString v
        = .error ⟨-1, oversizeText (writeString v).length⟩ := if_pos hlen
    simp only [sendMachine, hc] at hstep
    obtain rfl := Option.some.inj hstep
    exact ⟨rfl, rfl, rfl⟩

/-! ### Two values -/

/-- Two threads send two values, the second one first. -/
def twoSends (v w : Json) : List SendAction := [.call v, .call w, .write 1 true, .write 0 true]

/-- What they leave on the wire. -/
def twoSent (v w : Json) : Senders where
  wire := lengthHeader.stream [w.text, v.text]
  accepted := [w, v]

theorem twoSends_run {v w : Json} (hv : v.text.length ≤ maxMessageSize)
    (hw : w.text.length ≤ maxMessageSize) :
    (sendMachine Json.text).Run Machine.Always {} (twoSends v w) (twoSent v w) := by
  have hcv : composeMessage Json.text v = .ok (lengthHeader.frame v.text) :=
    composeMessage_eq_ok.mpr ⟨hv, rfl⟩
  have hcw : composeMessage Json.text w = .ok (lengthHeader.frame w.text) :=
    composeMessage_eq_ok.mpr ⟨hw, rfl⟩
  refine Machine.Run.of_eval ?_
  simp [Machine.eval, sendMachine, twoSends, hcv, hcw, twoSent, List.eraseIdx]

/-- A parser that knows the texts of two values. -/
def parseTwo (v w : Json) (bs : List UInt8) : Parsed :=
  if bs = v.text then .value v else if bs = w.text then .value w else .failed

/-- An empty object and an empty batch. -/
def emptyObject : Json := .object []

def emptyBatch : Json := .array []

theorem receive_undoes_send_two :
    (receiveAll (loggedSurroundings plainEnv (parseTwo emptyObject emptyBatch) fun s => (s, false))
      (freshConn ({}, [])) [[.bytes 0 [0]], [.bytes 0 [2, 91, 93, 0, 0, 0, 2, 123, 125]]]).1.peer.2
      = [emptyBatch, emptyObject] := by
  have hrun := twoSends_run (v := emptyObject) (w := emptyBatch) (by decide) (by decide)
  have hparse : ∀ v ∈ (twoSent emptyObject emptyBatch).accepted,
      parseTwo emptyObject emptyBatch v.text = .value v := by
    intro v hv
    rcases List.mem_cons.mp hv with rfl | hv
    · rfl
    · rw [List.mem_singleton.mp hv]
      rfl
  have honly : ∀ es ∈ ([[.bytes 0 [0]],
      [.bytes 0 [2, 91, 93, 0, 0, 0, 2, 123, 125]]] : List (List SocketEvent)), BytesOnly es := by
    intro es hes e he
    rcases List.mem_cons.mp hes with rfl | hes
    · rw [List.mem_singleton.mp he]
      rfl
    · rw [List.mem_singleton.mp hes] at he
      rw [List.mem_singleton.mp he]
      rfl
  exact (receive_undoes_send hrun hparse (.inl (Logged.start ⟨rfl, by simp, by simp⟩))
    lengthHeader.rest_nil rfl honly rfl).1.mpr (.inr ⟨rfl, .inl rfl⟩)

/-- A response with a string for an id. -/
def brokenResponse : Json := .object [("id", .string "x")]

/-- A value on which `receiveCallback` throws hides the ones behind it. -/
theorem thrown_value_hides_the_next :
    ∃ (as : List SendAction) (s : Senders) (parse : List UInt8 → Parsed)
      (calls : List (List SocketEvent)),
      (sendMachine Json.text).Run Machine.Always {} as s ∧
        (∀ v ∈ s.accepted, parse v.text = .value v) ∧ (∀ es ∈ calls, BytesOnly es) ∧
        calls.flatMap storedBytes = s.wire ∧
        (receiveAll (loggedSurroundings plainEnv parse fun s => (s, false))
          (freshConn ({}, [])) calls).1.peer.2 ≠ s.accepted := by
  have hrun := twoSends_run (v := emptyObject) (w := brokenResponse) (by decide) (by decide)
  have hparse : ∀ v ∈ (twoSent emptyObject brokenResponse).accepted,
      parseTwo emptyObject brokenResponse v.text = .value v := by
    intro v hv
    rcases List.mem_cons.mp hv with rfl | hv
    · rfl
    · rw [List.mem_singleton.mp hv]
      rfl
  have honly : ∀ es ∈ ([[.bytes 0 ((twoSent emptyObject brokenResponse).wire.tail)]] :
      List (List SocketEvent)), BytesOnly es := by
    intro es hes e he
    rw [List.mem_singleton.mp hes] at he
    rw [List.mem_singleton.mp he]
    rfl
  refine ⟨_, _, _, _, hrun, hparse, honly, rfl, fun h => ?_⟩
  have hno := (receiveAll_handed hrun hparse (.inl (Logged.start ⟨rfl, by simp, by simp⟩))
    lengthHeader.rest_nil rfl honly rfl).mp h
  rcases hno with hno | ⟨hno, -⟩
  · cases hno
  · exact absurd hno (by decide)

end JetPeer
