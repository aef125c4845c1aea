import ResourceHost.Cache.Program

/-!
# Operations of a cache

The operations that a cache offers, as programs.  Those on several names go
through them in order and stop at the first failure; what was done before it
stays done.
-/

namespace ResourceHost.Cache

open Program

/-! ### Types -/

/-- Registers the kind of a type. -/
def registerKind (t : TypeId) (k : Kind) : Program (Except Failure Unit) :=
  request (.register t k)

/-- Registers kinds in order, up to the first whose type is taken. -/
def registerKinds : List (TypeId × Kind) → Program (Except Failure Unit)
  | [] => pure (.ok ())
  | (t, k) :: rest => (registerKind t k).orStop fun _ => registerKinds rest

/-- Registers the types that a host knows. -/
def registerBuiltin : Program (Except Failure Unit) :=
  registerKinds Kind.builtin

/-- The kind of a type, which must be registered. -/
def kindOf (t : TypeId) : Program (Except Failure Kind) := do
  match ← request (.kind t) with
  | some k => return .ok k
  | none => return .error (.unknownType t)

/-! ### Loading -/

/-- Takes a reference to each name, and loads those that are not loaded. -/
def acquireAll (t : TypeId) (k : Kind) :
    List NameId → Program (Except Failure Unit)
  | [] => pure (.ok ())
  | n :: ns => (request (.acquire ⟨t, n⟩ k)).orStop fun _ => acquireAll t k ns

/-- Loads names of a type and brings them online.  No name needs no type. -/
def load (t : TypeId) (names : List NameId) : Program (Except Failure Unit) :=
  if names.isEmpty then pure (.ok ())
  else (kindOf t).orStop fun k => acquireAll t k names

/-- Brings a content online that was made outside the cache. -/
def addLoaded (h : Handle) (content : Content) :
    Program (Except Failure Unit) :=
  (kindOf h.type).orStop fun k => request (.add h k content)

/-! ### Access -/

/-- The representation of a resource that is online. -/
def get (h : Handle) : Program (Except Failure Representation) :=
  request (.visit h .get)

/-- The representation of a resource that is online and has a shape. -/
def getAs (h : Handle) (shape : Shape) :
    Program (Except Failure Representation) :=
  (get h).orStop fun r =>
    pure (if r.content.shape = shape then .ok r
      else .error (.wrongShape h shape))

/-- The unit description of a handle. -/
def getUnit (h : Handle) : Program (Except Failure Unit.Description) :=
  (get h).orStop fun r =>
    match r.content.asUnit? with
    | some d => pure (.ok d)
    | none => pure (.error (.wrongShape h .unit))

/-- The manifest of a handle. -/
def getPackage (h : Handle) : Program (Except Failure Package.Manifest) :=
  (get h).orStop fun r =>
    match r.content.asPackage? with
    | some m => pure (.ok m)
    | none => pure (.error (.wrongShape h .package))

/-- The representation of a resource, which is loaded first if it is missing
and missing resources are loaded on first use. -/
def getOrLoad (h : Handle) : Program (Except Failure Representation) := do
  if ← request .autoload then
    if ← request (.isListed h) then get h
    else (load h.type [h.name]).orStop fun _ => get h
  else get h

/-- Where a handle stands. -/
def state (h : Handle) : Program State := request (.visit h .state)

/-- Whether a resource is online. -/
def canGet (h : Handle) : Program Bool := do
  return (← state h) = .online

/-- Whether all names of a type are online. -/
def canGetAll (t : TypeId) : List NameId → Program Bool
  | [] => pure true
  | n :: ns => do
    if ← canGet ⟨t, n⟩ then canGetAll t ns else return false

/-- The references to a handle. -/
def refCount (h : Handle) : Program Nat := request (.visit h .refCount)

/-- Drops a reference and gives how many are left. -/
def release (h : Handle) : Program (Except Failure Nat) :=
  request (.visit h .release)

/-- How many entries are in which state. -/
structure Stats where
  loading : Nat := 0
  online : Nat := 0
  offline : Nat := 0
  deriving DecidableEq, Repr

namespace Stats

/-- The number of entries counted. -/
def total (s : Stats) : Nat := s.loading + s.online + s.offline

/-- Counts one more entry. -/
def count (s : Stats) : State → Stats
  | .loading | .loaded => { s with loading := s.loading + 1 }
  | .online => { s with online := s.online + 1 }
  | .offline => { s with offline := s.offline + 1 }
  | .unloading | .unloaded => s

end Stats

/-- Counts the entries of some slots. -/
def countSlots : List SlotId → Stats → Program Stats
  | [], stats => pure stats
  | s :: rest, stats => do
    let state ← request (.stateOf s)
    countSlots rest (stats.count state)

/-- Counts the entries of the table. -/
def stats : Program Stats := do
  countSlots (← request .slots) {}

/-! ### Online and offline -/

/-- Takes a resource offline; one that is offline or absent is left alone. -/
def offline (h : Handle) : Program (Except Failure Unit) :=
  request (.visit h .offline)

/-- Brings a resource back online. -/
def online (h : Handle) : Program (Except Failure Unit) :=
  request (.visit h .online)

/-! ### Reloading -/

/-- Replaces what a resource holds. -/
def reload (h : Handle) (bytes : List UInt8) : Program (Except Failure Unit) :=
  request (.visit h (.reload bytes))

/-- The bytes that the source has for a handle. -/
def readSource (h : Handle) : Program (Except Failure (List UInt8)) := do
  match ← request (.read h) with
  | .ok bytes => return .ok bytes
  | .error why => return .error (.noBytes h why)

/-- Replaces what names hold by what the source has now. -/
def reloadFromSource (t : TypeId) : List NameId → Program (Except Failure Unit)
  | [] => pure (.ok ())
  | n :: ns =>
    (readSource ⟨t, n⟩).orStop fun bytes =>
      (reload ⟨t, n⟩ bytes).orStop fun _ => reloadFromSource t ns

/-- What came of reloading everything. -/
structure ReloadReport where
  reloaded : Nat := 0
  failed : List Failure := []

/-- Reloads those of some handles that are loaded. -/
def reloadEach : List Handle → ReloadReport → Program ReloadReport
  | [], report => pure report
  | h :: hs, report => do
    let s ← state h
    if s = .online ∨ s = .offline then
      match ← reloadFromSource h.type [h.name] with
      | .ok () => reloadEach hs { report with reloaded := report.reloaded + 1 }
      | .error f => reloadEach hs { report with failed := report.failed ++ [f] }
    else reloadEach hs report

/-- Reloads everything that is loaded, in the order of the handles. -/
def reloadAll : Program ReloadReport := do
  let handles ← request .handles
  reloadEach (Handle.sort handles) {}

/-! ### Unloading -/

/-- Evicts a resource, whatever its references; an absent one is left alone. -/
def unload (h : Handle) : Program (Except Failure Unit) :=
  request (.visit h .unload)

/-- Evicts names of a type. -/
def unloadAll (t : TypeId) : List NameId → Program (Except Failure Unit)
  | [] => pure (.ok ())
  | n :: ns => (unload ⟨t, n⟩).orStop fun _ => unloadAll t ns

end ResourceHost.Cache
