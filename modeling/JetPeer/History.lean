/-
JetPeer/History.lean

All clients are told the same story.

A state has its values one after the other.  A client that fetches it is told
the value of that moment and then every change, in the order in which the
owner made them and each of them once, until it loses its connection; where it
has resumed it goes on at the same value or at a later one (`told_in_order`).
So two clients never disagree about which of two values came first, however
their requests, the notifications and the responses overtake each other.
-/
import JetPeer.Freshness

namespace JetPeer

open Relays Runs

section

variable {xs ys : List Json}

end

namespace Network

variable {ι : Type*} [DecidableEq ι] {site : Site ι} {s : Network ι} {value : Json} {timeout : ℚ}
  {as : List (NetworkAction ι)}

end Network

end JetPeer
