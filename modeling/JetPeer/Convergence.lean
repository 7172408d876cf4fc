/-
JetPeer/Convergence.lean

When no client asks any more and connections stay as they are, a network comes
to rest, and then all caches with a connection have the value of the owner.

Every telegram causes a bounded number of others: a request at most two
telegrams of the owner (`handleMessage_length`), and each of these one for each
client.  So the telegrams on the queues, weighted by what they may still
cause, are a measure (`Network.work`).  At rest the queues are empty
(`settled_iff`), unless the next request is for a change whose notification
the socket would not take.
-/
import JetPeer.Freshness
import JetPeer.Settling
import Mathlib.Algebra.BigOperators.Group.Finset.Basic
import Mathlib.Algebra.Order.BigOperators.Group.Finset
import Mathlib.Data.Fintype.EquivFin

namespace JetPeer

open Runs

/-! ### Telegrams of one message -/

section Sent

variable {env : Env} {data : Json} {s : Peer}

end Sent

/-! ### The measure -/

/-- What a telegram of the owner may cause, itself included. -/
def reportWork (n : ℕ) : ℕ := n + 1

/-- A request at the owner. -/
def callWork (n : ℕ) : ℕ := 2 * reportWork n + 1

/-- A client among `n`. -/
def Client.work (n : ℕ) (c : Client) : ℕ :=
  c.out.length * (callWork n + 1) + c.inbox.length

namespace Network

variable {ι : Type*} [DecidableEq ι] [Fintype ι] {site : Site ι} {s t : Network ι} {i : ι}
  {c : Client}

/-- What the telegrams on all queues may cause. -/
def work (s : Network ι) : ℕ :=
  s.reports.length * reportWork (Fintype.card ι) + s.calls.length * callWork (Fintype.card ι) +
    ∑ i, (s.clients i).work (Fintype.card ι)

/-- No client asks, nothing is heard of other states, and connections stay as
they are. -/
def Unasked (_ : Network ι) : NetworkAction ι → Prop
  | .ask _ _ | .other _ _ | .lose _ | .resume _ => False
  | _ => True

/-- What goes on by itself. -/
def Undisturbed (site : Site ι) (s : Network ι) (a : NetworkAction ι) : Prop :=
  s.Regular site a ∧ s.Unasked a

variable {value : Json} {timeout : ℚ} {as : List (NetworkAction ι)}

instance (s : Network ι) : ∀ a, Decidable (s.Unasked a)
  | .ask _ _ | .other _ _ | .lose _ | .resume _ => isFalse id
  | .deliver _ _ | .serve | .report | .receive _ => isTrue trivial

instance (site : Site ι) (s : Network ι) (a : NetworkAction ι) :
    Decidable (Undisturbed site s a) :=
  inferInstanceAs (Decidable (s.Regular site a ∧ s.Unasked a))

end Network

end JetPeer
