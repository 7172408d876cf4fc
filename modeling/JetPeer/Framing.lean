/-
JetPeer/Framing.lean

Length-prefixed framing over an arbitrary symbol type.

A `Header` fixes how the length of a payload is written in front of it and
the largest length a receiver accepts.  The reference decoder cuts a word
into the payloads it completely contains, `split`, and what is left after
them, `rest`; it stops at the first header over the limit.

An incremental decoder never sees the whole word.  After the symbols `bs` it
has produced `split bs` and holds `rest bs`, and reading `c` more symbols
only ever looks at what it holds:

    split (bs ++ c) = split bs ++ split (rest bs ++ c)
    rest  (bs ++ c) = rest (rest bs ++ c)

`feed_incomplete` and `feed_whole` are the two moves such a decoder makes.
-/
import Mathlib.Data.List.Basic

namespace Framing

variable {β : Type*}

/-- How the length of a payload is written. -/
structure Header (β : Type*) where
  /-- Number of symbols of every header. -/
  size : ℕ
  size_pos : 0 < size
  /-- Largest payload length a receiver accepts. -/
  limit : ℕ
  encode : ℕ → List β
  decode : List β → ℕ
  length_encode : ∀ n, (encode n).length = size
  decode_encode : ∀ n, n ≤ limit → decode (encode n) = n

namespace Header

variable (H : Header β)

/-- One frame: header and payload. -/
def frame (p : List β) : List β := H.encode p.length ++ p

/-- A whole stream of frames. -/
def stream (ps : List (List β)) : List β := ps.flatMap H.frame

@[simp] theorem stream_nil : H.stream [] = [] := rfl

@[simp] theorem stream_cons (p : List β) (ps : List (List β)) :
    H.stream (p :: ps) = H.frame p ++ H.stream ps := rfl

@[simp] theorem stream_append (ps qs : List (List β)) :
    H.stream (ps ++ qs) = H.stream ps ++ H.stream qs := by
  simp [stream]

/-- The length announced by the header at the front of `bs`. -/
def announced (bs : List β) : ℕ := H.decode (bs.take H.size)

/-- `bs` starts with a whole frame of acceptable length. -/
def Starts (bs : List β) : Prop :=
  H.size ≤ bs.length ∧ H.announced bs ≤ H.limit ∧ H.size + H.announced bs ≤ bs.length

instance (bs : List β) : Decidable (H.Starts bs) :=
  inferInstanceAs (Decidable (_ ∧ _))

/-- What follows the frame at the front of `bs`. -/
def behind (bs : List β) : List β := bs.drop (H.size + H.announced bs)

theorem length_behind_lt {bs : List β} (h : H.Starts bs) :
    (H.behind bs).length < bs.length := by
  have := H.size_pos
  have := h.1
  simp only [behind, List.length_drop]
  omega

/-- The reference decoder: the payloads `bs` completely contains. -/
def split (bs : List β) : List (List β) :=
  if _h : H.Starts bs then
    (bs.drop H.size).take (H.announced bs) :: split (H.behind bs)
  else []
termination_by bs.length
decreasing_by exact H.length_behind_lt (by assumption)

/-- The symbols of `bs` no payload accounts for yet. -/
def rest (bs : List β) : List β :=
  if _h : H.Starts bs then rest (H.behind bs) else bs
termination_by bs.length
decreasing_by exact H.length_behind_lt (by assumption)

theorem split_of_not_starts {bs : List β} (h : ¬ H.Starts bs) : H.split bs = [] := by
  rw [split, dif_neg h]

theorem rest_of_not_starts {bs : List β} (h : ¬ H.Starts bs) : H.rest bs = bs := by
  rw [rest, dif_neg h]

theorem split_of_starts {bs : List β} (h : H.Starts bs) :
    H.split bs = (bs.drop H.size).take (H.announced bs) :: H.split (H.behind bs) := by
  rw [split, dif_pos h]

theorem rest_of_starts {bs : List β} (h : H.Starts bs) :
    H.rest bs = H.rest (H.behind bs) := by
  rw [rest, dif_pos h]

theorem not_starts_nil : ¬ H.Starts [] := by
  intro h
  have h₁ : H.size ≤ 0 := h.1
  exact absurd H.size_pos (by omega)

@[simp] theorem split_nil : H.split [] = [] := H.split_of_not_starts H.not_starts_nil

@[simp] theorem rest_nil : H.rest [] = [] := H.rest_of_not_starts H.not_starts_nil

/-- A frame at the front stays one when more symbols follow. -/
theorem Starts.append {bs : List β} (h : H.Starts bs) (x : List β) :
    H.announced (bs ++ x) = H.announced bs ∧ H.Starts (bs ++ x) := by
  have hann : H.announced (bs ++ x) = H.announced bs := by
    rw [announced, List.take_append_of_le_length h.1, announced]
  refine ⟨hann, ?_⟩
  rw [Starts, hann, List.length_append]
  exact ⟨by have := h.1; omega, h.2.1, by have := h.2.2; omega⟩

/-- **Decoding is incremental**: more symbols only meet what is left. -/
theorem split_append (bs x : List β) :
    H.split (bs ++ x) = H.split bs ++ H.split (H.rest bs ++ x) ∧
      H.rest (bs ++ x) = H.rest (H.rest bs ++ x) := by
  by_cases h : H.Starts bs
  · obtain ⟨hann, hst⟩ := Starts.append H h x
    have hbehind : H.behind (bs ++ x) = H.behind bs ++ x := by
      rw [behind, hann, List.drop_append_of_le_length h.2.2, behind]
    have hpayload : ((bs ++ x).drop H.size).take (H.announced bs)
        = (bs.drop H.size).take (H.announced bs) := by
      rw [List.drop_append_of_le_length h.1, List.take_append_of_le_length]
      have := h.2.2
      simp only [List.length_drop]
      omega
    obtain ⟨ihs, ihr⟩ := split_append (H.behind bs) x
    rw [H.split_of_starts hst, H.rest_of_starts hst, H.split_of_starts h,
      H.rest_of_starts h, hbehind, hann, hpayload, ihs, ihr]
    exact ⟨rfl, rfl⟩
  · rw [H.split_of_not_starts h, H.rest_of_not_starts h]
    exact ⟨rfl, rfl⟩
termination_by bs.length
decreasing_by exact H.length_behind_lt (by assumption)

/-- Header and payload in front are cut off and the payload produced. -/
theorem split_whole {h p : List β} (x : List β) (hh : h.length = H.size)
    (hp : p.length = H.decode h) (hlim : H.decode h ≤ H.limit) :
    H.split (h ++ p ++ x) = p :: H.split x ∧ H.rest (h ++ p ++ x) = H.rest x := by
  have hann : H.announced (h ++ p ++ x) = p.length := by
    rw [announced, List.append_assoc, ← hh, List.take_left, hp]
  have hst : H.Starts (h ++ p ++ x) := by
    refine ⟨?_, ?_, ?_⟩
    · simp only [List.length_append]; omega
    · rw [hann, hp]; exact hlim
    · rw [hann]; simp only [List.length_append]; omega
  have hbehind : H.behind (h ++ p ++ x) = x := by
    rw [behind, hann, ← hh, ← List.length_append, List.drop_left]
  rw [H.split_of_starts hst, H.rest_of_starts hst, hbehind, hann]
  refine ⟨?_, rfl⟩
  rw [List.append_assoc, ← hh, List.drop_left, List.take_left]

/-! ### Streams of frames -/

theorem split_frame {p : List β} (hp : p.length ≤ H.limit) (x : List β) :
    H.split (H.frame p ++ x) = p :: H.split x ∧ H.rest (H.frame p ++ x) = H.rest x := by
  have hdec := H.decode_encode _ hp
  exact H.split_whole x (H.length_encode _) hdec.symm (by rw [hdec]; exact hp)

/-- **Splitting undoes framing**, whatever follows the stream. -/
theorem split_stream {ps : List (List β)} (hps : ∀ p ∈ ps, p.length ≤ H.limit)
    (x : List β) :
    H.split (H.stream ps ++ x) = ps ++ H.split x ∧
      H.rest (H.stream ps ++ x) = H.rest x := by
  induction ps with
  | nil => exact ⟨rfl, rfl⟩
  | cons p ps ih =>
      obtain ⟨ihs, ihr⟩ := ih fun q hq => hps q (by simp [hq])
      obtain ⟨hs, hr⟩ := H.split_frame (hps p (by simp)) (H.stream ps ++ x)
      rw [stream_cons, List.append_assoc, hs, hr, ihs, ihr]
      exact ⟨rfl, rfl⟩

/-! ### The two moves of an incremental decoder -/

variable {H} {bs tail : List β}

/-- Reading on inside a frame produces nothing. -/
theorem feed_incomplete (htail : H.rest bs = tail) {c : List β}
    (hc : ¬ H.Starts (tail ++ c)) :
    H.split (bs ++ c) = H.split bs ∧ H.rest (bs ++ c) = tail ++ c := by
  obtain ⟨hs, hr⟩ := H.split_append bs c
  rw [hs, hr, htail, H.split_of_not_starts hc, H.rest_of_not_starts hc]
  exact ⟨List.append_nil _, rfl⟩

/-- Reading up to the end of a frame produces its payload and leaves nothing. -/
theorem feed_whole (htail : H.rest bs = tail) {c h p : List β} (hc : tail ++ c = h ++ p)
    (hh : h.length = H.size) (hp : p.length = H.decode h) (hlim : H.decode h ≤ H.limit) :
    H.split (bs ++ c) = H.split bs ++ [p] ∧ H.rest (bs ++ c) = [] := by
  obtain ⟨hs, hr⟩ := H.split_append bs c
  obtain ⟨hs', hr'⟩ := H.split_whole [] hh hp hlim
  rw [List.append_nil] at hs' hr'
  rw [hs, hr, htail, hc, hs', hr']
  simp

end Header

end Framing
