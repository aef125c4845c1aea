import ResourceHost.Cache.Entry

/-!
# Tallies of callbacks

How often the kind of a type was called, counted in the log of a cache, where
the latest callback stands first, and how many resources of the type are online
by that count.
-/

namespace ResourceHost

namespace Callback

/-- Whether a callback is about a resource of a type, and so went to its
kind. -/
def isFor (t : TypeId) (c : Callback) : Bool := c.handle.type = t

end Callback

/-- How often a kind was called. -/
structure Tally where
  loads : Nat := 0
  reloads : Nat := 0
  unloads : Nat := 0
  onlines : Nat := 0
  offlines : Nat := 0
  deriving DecidableEq, Repr

namespace Tally

/-- Counts one more callback. -/
def count (t : Tally) : Callback → Tally
  | .load .. => { t with loads := t.loads + 1 }
  | .online .. => { t with onlines := t.onlines + 1 }
  | .offline .. => { t with offlines := t.offlines + 1 }
  | .reload .. => { t with reloads := t.reloads + 1 }
  | .unload .. => { t with unloads := t.unloads + 1 }

/-- Counts the callbacks of a log. -/
def ofLog (log : List Callback) : Tally := log.foldr (fun c t => t.count c) {}

/-- The callbacks to the kind of one type. -/
def ofType (type : TypeId) (log : List Callback) : Tally :=
  ofLog (log.filter (·.isFor type))

end Tally

/-! ### The counter of resources online -/

namespace OnlineCount

/-- The counter after one more callback. -/
def step (n : Nat) : Callback → Nat
  | .online .. => n + 1
  | .offline .. => n - 1
  | _ => n

/-- How many resources of a type are online, as its kind counts them. -/
def ofType (type : TypeId) (log : List Callback) : Nat :=
  (log.filter (·.isFor type)).foldr (fun c n => step n c) 0

end OnlineCount

end ResourceHost
