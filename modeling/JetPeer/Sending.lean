/-
JetPeer/Sending.lean

`PeerAsync::sendMessage` and the threads that call it.

A thread composes its telegram and checks the length on its own; only the
write to the socket is behind `m_sendMutex`.  `Senders` keeps the telegrams
that are composed and wait for the mutex, so that the order of the stream is
the order in which the mutex is taken:

    wire = lengthHeader.stream (accepted.map writeString)
-/
import JetPeer.Defines
import JetPeer.Runs

namespace JetPeer

open Runs

/-! ### One telegram -/

def oversizeText (len : ℕ) : String :=
  "Message size " ++ toString len ++ " exceeds maximum message size (" ++
    toString maxMessageSize ++ ") and will not be send!"

/-- The two data blocks of a telegram, if its text is not too long. -/
def composeMessage (writeString : Json → List UInt8) (value : Json) :
    Except JsonrpcException (List UInt8) :=
  let msg := writeString value
  if maxMessageSize < msg.length then .error ⟨-1, oversizeText msg.length⟩
  else .ok (htonl msg.length ++ msg)

variable {writeString : Json → List UInt8}

/-- A text is accepted up to the limit itself. -/
theorem composeMessage_eq_ok {value : Json} {frame : List UInt8} :
    composeMessage writeString value = .ok frame ↔
      (writeString value).length ≤ maxMessageSize ∧
        frame = lengthHeader.frame (writeString value) := by
  simp only [composeMessage]
  split_ifs with h
  · constructor
    · intro h'
      cases h'
    · rintro ⟨h', -⟩
      exact absurd h' (Nat.not_le.mpr h)
  · constructor
    · intro h'
      cases h'
      exact ⟨Nat.not_lt.mp h, rfl⟩
    · rintro ⟨-, rfl⟩
      rfl

/-! ### The composed text -/

namespace Json

def ascii (s : String) : List UInt8 := s.toList.map fun c => UInt8.ofNat c.toNat

mutual

/-- The text jsoncpp writes without indentation, for documents of plain ASCII
strings and integers. -/
def text : Json → List UInt8
  | null => ascii "null"
  | bool b => ascii (if b then "true" else "false")
  | int n => ascii (toString n)
  | uint n => ascii (toString n)
  | real r => ascii (toString (truncate r) ++ ".0")
  | string s => ascii "\"" ++ ascii s ++ ascii "\""
  | array xs => ascii "[" ++ elements xs ++ ascii "]"
  | object ms => ascii "\x7b" ++ membersText ms ++ ascii "\x7d"

def elements : List Json → List UInt8
  | [] => []
  | [x] => x.text
  | x :: y :: xs => x.text ++ ascii "," ++ elements (y :: xs)

def membersText : List (String × Json) → List UInt8
  | [] => []
  | [(k, x)] => ascii "\"" ++ ascii k ++ ascii "\":" ++ x.text
  | (k, x) :: m :: ms => ascii "\"" ++ ascii k ++ ascii "\":" ++ x.text ++ ascii "," ++
      membersText (m :: ms)

end

end Json

example : (Json.object [("id", .uint 1), ("result", .object [])]).text
    = Json.ascii "\x7b\"id\":1,\"result\":\x7b\x7d\x7d" := by decide

/-! ### Threads -/

/-- The sending side of a peer. -/
structure Senders where
  waiting : List (Json × List UInt8) := []
  wire : List UInt8 := []
  accepted : List Json := []
  thrown : List Json := []

/-- A thread calls `sendMessage`, or the `i`-th of those waiting takes the
mutex; `sendBlocks` writes all blocks or fails without writing. -/
inductive SendAction where
  | call (value : Json)
  | write (i : ℕ) (ok : Bool)

def sendMachine (writeString : Json → List UInt8) : Machine Senders SendAction where
  step s
    | .call value =>
        match composeMessage writeString value with
        | .error _ => some { s with thrown := s.thrown ++ [value] }
        | .ok frame => some { s with waiting := s.waiting ++ [(value, frame)] }
    | .write i ok =>
        match s.waiting[i]? with
        | none => none
        | some (value, frame) =>
            let s := { s with waiting := s.waiting.eraseIdx i }
            if ok then
              some { s with wire := s.wire ++ frame, accepted := s.accepted ++ [value] }
            else some { s with thrown := s.thrown ++ [value] }

/-- What waits for the mutex is a frame, and the wire is a stream of those
that got it. -/
structure Composed (writeString : Json → List UInt8) (s : Senders) : Prop where
  waiting : ∀ w ∈ s.waiting, (writeString w.1).length ≤ maxMessageSize ∧
    w.2 = lengthHeader.frame (writeString w.1)
  wire : s.wire = lengthHeader.stream (s.accepted.map writeString)
  accepted : ∀ v ∈ s.accepted, (writeString v).length ≤ maxMessageSize

theorem sendMachine_step_composed {s u : Senders} {a : SendAction}
    (h : Composed writeString s) (hstep : (sendMachine writeString).step s a = some u) :
    Composed writeString u := by
  cases a with
  | call value =>
      rcases hc : composeMessage writeString value with e | frame
      · simp only [sendMachine, hc] at hstep
        obtain rfl := Option.some.inj hstep
        exact ⟨h.waiting, h.wire, h.accepted⟩
      · simp only [sendMachine, hc] at hstep
        obtain rfl := Option.some.inj hstep
        refine ⟨?_, h.wire, h.accepted⟩
        intro w hw
        rcases List.mem_append.mp hw with hw | hw
        · exact h.waiting w hw
        · obtain rfl := List.mem_singleton.mp hw
          exact composeMessage_eq_ok.mp hc
  | write i ok =>
      rcases hi : s.waiting[i]? with - | ⟨value, frame⟩
      · simp [sendMachine, hi] at hstep
      · obtain ⟨hlen, hframe⟩ := h.waiting _ (List.mem_of_getElem? hi)
        have hrest : ∀ w ∈ s.waiting.eraseIdx i, (writeString w.1).length ≤ maxMessageSize ∧
            w.2 = lengthHeader.frame (writeString w.1) :=
          fun w hw => h.waiting w (List.mem_of_mem_eraseIdx hw)
        simp only [sendMachine, hi] at hstep
        cases ok with
        | false =>
            obtain rfl := Option.some.inj hstep
            exact ⟨hrest, h.wire, h.accepted⟩
        | true =>
            obtain rfl := Option.some.inj hstep
            refine ⟨hrest, ?_, ?_⟩
            · show s.wire ++ frame = lengthHeader.stream ((s.accepted ++ [value]).map writeString)
              rw [h.wire, List.map_append, lengthHeader.stream_append]
              change frame = _ at hframe
              rw [hframe]
              simp
            · intro v hv
              rcases List.mem_append.mp hv with hv | hv
              · exact h.accepted v hv
              · obtain rfl := List.mem_singleton.mp hv
                exact hlen

/-- **The wire is a stream** of the accepted texts, whatever the threads do. -/
theorem sendMachine_composed {as : List SendAction} {s : Senders}
    (h : (sendMachine writeString).Run Machine.Always {} as s) : Composed writeString s :=
  h.invariant ⟨fun _ hw => by simp at hw, rfl, fun _ hv => by simp at hv⟩
    fun _ _ _ ht _ hstep => sendMachine_step_composed ht hstep

end JetPeer
