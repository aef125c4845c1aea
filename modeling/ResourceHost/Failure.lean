import ResourceHost.Decimal.Integer
import ResourceHost.Id
import ResourceHost.Json.Reader.Basic
import ResourceHost.Shape

/-!
# Failures

Every way in which an operation of this library can fail, as a cause with the
failure below it where there is one.  The wording is in one place: `messages`
gives the texts of the whole chain, the outermost first.
-/

namespace ResourceHost

/-- Why a byte source has no bytes for a handle. -/
inductive SourceFailure where
  | noData (h : Handle)
  /-- The path is there and cannot be read. -/
  | unreadable (path : String)
  deriving DecidableEq, Repr

/-- The texts of a source failure and of what lies below it. -/
def SourceFailure.messages : SourceFailure → List String
  | .noData h => ["no data for " ++ h.buildName]
  | .unreadable path => ["failed to read " ++ path, "io"]

/-- What is wrong with a unit description. -/
inductive UnitProblem where
  | noEntities
  /-- A group with different numbers of entities and records. -/
  | unequal (group entities records : Nat)
  /-- An index in a group that is no entity of the unit. -/
  | outOfRange (group index count : Nat)
  deriving DecidableEq, Repr

/-- The wording of a unit problem. -/
def UnitProblem.text : UnitProblem → String
  | .noEntities => "unit declares no entities"
  | .unequal g e r =>
    "group " ++ Decimal.ofNat g ++ ": " ++ Decimal.ofNat e ++ " entities but "
      ++ Decimal.ofNat r ++ " records"
  | .outOfRange g i n =>
    "group " ++ Decimal.ofNat g ++ ": local index " ++ Decimal.ofNat i
      ++ " out of range 0.." ++ Decimal.ofNat n

/-- What was being done when something below it failed. -/
inductive Activity where
  | parseUnit
  | parsePackage
  | parseConfig (h : Handle)
  | runCommand (name : String)
  | readWorld
  | loadBootPackage (name : String)
  | findUnit (name : String)
  | spawnUnit (name : String)
  | loadPackage (package : NameId)
  | readSettings (path : String)
  | parseSettings
  /-- Anything else, in its own words. -/
  | other (text : String)
  deriving DecidableEq, Repr

/-- The wording of an activity that failed. -/
def Activity.text : Activity → String
  | .parseUnit => "parse unit json"
  | .parsePackage => "parse package json"
  | .parseConfig h => "parse config " ++ h.buildName
  | .runCommand name => "command '" ++ name ++ "'"
  | .readWorld => "world must be a number"
  | .loadBootPackage name => "load boot package '" ++ name ++ "'"
  | .findUnit name => "unit '" ++ name ++ "'"
  | .spawnUnit name => "spawn unit '" ++ name ++ "'"
  | .loadPackage p => "load package " ++ p.text
  | .readSettings path => "read config " ++ path
  | .parseSettings => "parse config"
  | .other text => text

/-- A failure, with the failure that caused it where there is one. -/
inductive Failure where
  /-- The type has been registered before. -/
  | typeTaken (t : TypeId)
  | unknownType (t : TypeId)
  /-- The byte source has no bytes for the handle. -/
  | noBytes (h : Handle) (why : SourceFailure)
  /-- The bytes of the handle were refused. -/
  | loader (h : Handle) (cause : Failure)
  | notLoaded (h : Handle)
  | alreadyLoaded (h : Handle)
  | wrongShape (h : Handle) (expected : Shape)
  /-- The new bytes of the handle were refused; it keeps what it had. -/
  | reload (h : Handle) (cause : Failure)
  | malformedUnit (problem : UnitProblem)
  | unknownComponent (c : ComponentId)
  | spawner (c : ComponentId) (cause : Failure)
  | json (problem : Json.Problem)
  | notUtf8
  | inputOutput
  | integer (problem : Decimal.IntegerProblem)
  /-- A record whose position is no triple of numbers. -/
  | badPosition
  /-- A record whose scale is no number. -/
  | badScale
  | usage (how : String)
  | unknownCvar (name : String)
  | readOnlyCvar (name : String)
  /-- The words of an extension that refuses something. -/
  | told (text : String)
  | during (what : Activity) (cause : Failure)
  deriving DecidableEq, Repr

namespace Failure

/-- The texts of a failure and of everything below it, the outermost first. -/
def messages : Failure → List String
  | .typeTaken t => ["resource type " ++ t.labelled ++ " is already registered"]
  | .unknownType t => ["resource type " ++ t.labelled ++ " is not registered"]
  | .noBytes h why => ("byte source failed for " ++ h.buildName) :: why.messages
  | .loader h cause => ("loader failed for " ++ h.buildName) :: cause.messages
  | .notLoaded h => ["resource " ++ h.buildName ++ " is not loaded"]
  | .alreadyLoaded h => ["resource " ++ h.buildName ++ " is already loaded"]
  | .wrongShape h expected =>
    ["resource " ++ h.buildName ++ " is not a " ++ expected.name]
  | .reload h cause =>
    ("reload failed for " ++ h.buildName ++ ", previous data kept") ::
      cause.messages
  | .malformedUnit p => ["malformed unit description: " ++ p.text]
  | .unknownComponent c =>
    ["component type " ++ c.labelled ++ " is not registered"]
  | .spawner c cause =>
    ("component spawn failed for " ++ c.labelled) :: cause.messages
  | .json p => [p.text]
  | .notUtf8 => ["utf8"]
  | .inputOutput => ["io"]
  | .integer p => [p.text]
  | .badPosition => ["position must be [x, y, z]"]
  | .badScale => ["scale must be a number"]
  | .usage how => ["usage: " ++ how]
  | .unknownCvar name => ["unknown cvar: " ++ name]
  | .readOnlyCvar name => ["cvar " ++ name ++ " is read-only"]
  | .told text => [text]
  | .during what cause => what.text :: cause.messages

/-- The outermost text. -/
def message (f : Failure) : String := f.messages.headD ""

/-- The texts below the outermost. -/
def causes (f : Failure) : List String := f.messages.tail

/-- The outermost failure of the chain that concerns a resource, a unit or a
component; none if the chain has no such failure. -/
def resourceFailure? : Failure → Option Failure
  | .during _ cause => cause.resourceFailure?
  | .json _ | .notUtf8 | .inputOutput | .integer _ | .badPosition | .badScale
  | .usage _ | .unknownCvar _ | .readOnlyCvar _ | .told _ => none
  | f => some f

/-- The handle that a failure is tied to. -/
def handle? : Failure → Option Handle
  | .noBytes h _ | .loader h _ | .notLoaded h | .alreadyLoaded h
  | .wrongShape h _ | .reload h _ => some h
  | _ => none

end Failure

/-- A result; of a failure it is said what was being done. -/
def Activity.explain {α : Type} (what : Activity) :
    Except Failure α → Except Failure α
  | .ok a => .ok a
  | .error f => .error (.during what f)

end ResourceHost
