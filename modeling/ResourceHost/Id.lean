import ResourceHost.Text.Hex
import ResourceHost.Text.Utf8

/-!
# Identifiers and handles

Every identifier is a 64-bit hash of a name, so a name has the same identifier
in every run.  A handle pairs the identifier of a resource type with the
identifier of one resource of that type; its build name, 32 hexadecimal
digits, is the file the compiled resource lives in.
-/

namespace ResourceHost

/-! ### The hash of a name -/

namespace NameHash

/-- The hash of the empty name. -/
def basis : UInt64 := 0xcbf29ce484222325

/-- The odd factor each step multiplies by. -/
def factor : UInt64 := 0x100000001b3

/-- Takes one more byte into the hash. -/
def step (h : UInt64) (b : UInt8) : UInt64 := (h ^^^ b.toUInt64) * factor

/-- The hash of a byte string. -/
def ofBytes (bytes : List UInt8) : UInt64 := bytes.foldl step basis

/-- The hash of a name: that of its UTF-8 bytes. -/
def ofName (name : String) : UInt64 := ofBytes (Text.toBytes name)

end NameHash

/-! ### Identifiers -/

/-- What an identifier stands for. -/
inductive Realm where
  /-- A resource type, such as `unit` or `package`. -/
  | type
  /-- One resource within its type. -/
  | resource
  /-- A type of component that units attach to entities. -/
  | component
  deriving DecidableEq, Repr

/-- The word an identifier of the realm is announced with. -/
def Realm.label : Realm → String
  | .type => "ResourceTypeId"
  | .resource => "ResourceInstanceId"
  | .component => "ComponentTypeId"

/-- A 64-bit identifier of one realm. -/
structure Id (r : Realm) where
  raw : UInt64
  deriving DecidableEq, Repr

abbrev TypeId := Id .type
abbrev NameId := Id .resource
abbrev ComponentId := Id .component

namespace Id

variable {r : Realm}

/-- The identifier of a name. -/
def ofName (name : String) : Id r := ⟨NameHash.ofName name⟩

/-- Sixteen upper-case hexadecimal digits. -/
def digits (i : Id r) : List Char := Hex.upper 16 i.raw.toNat

/-- The digits as a text. -/
def text (i : Id r) : String := String.ofList i.digits

/-- The digits with the realm's label around them. -/
def labelled (i : Id r) : String := r.label ++ "(" ++ i.text ++ ")"

/-- The identifier as a JSON number. -/
def json (i : Id r) : String := toString i.raw.toNat

theorem length_digits (i : Id r) : i.digits.length = 16 := Hex.length_upper 16 _

end Id

/-! ### Handles -/

/-- The key of one cache entry. -/
structure Handle where
  type : TypeId
  name : NameId
  deriving DecidableEq, Repr

namespace Handle

/-- The handle of a resource name within a type name. -/
def ofNames (type name : String) : Handle := ⟨Id.ofName type, Id.ofName name⟩

/-- The digits of the type, then those of the name. -/
def buildDigits (h : Handle) : List Char := h.type.digits ++ h.name.digits

/-- The name of the file the compiled resource lives in. -/
def buildName (h : Handle) : String := String.ofList h.buildDigits

/-- The handle with its parts labelled. -/
def labelled (h : Handle) : String :=
  "ResourceHandle \x7b type_id: " ++ h.type.labelled ++ ", name: " ++
    h.name.labelled ++ " \x7d"

/-- The handle as a JSON object. -/
def json (h : Handle) : String :=
  "\x7b\"type_id\":" ++ h.type.json ++ ",\"name\":" ++ h.name.json ++ "\x7d"

/-- Handles are ordered by type, and within a type by name. -/
def lt (a b : Handle) : Prop :=
  a.type.raw < b.type.raw ∨ a.type.raw = b.type.raw ∧ a.name.raw < b.name.raw

instance : LT Handle := ⟨lt⟩

instance (a b : Handle) : Decidable (a < b) :=
  inferInstanceAs (Decidable (_ ∨ _))

/-- Handles in ascending order. -/
def sort (hs : List Handle) : List Handle :=
  hs.mergeSort fun a b => decide (¬ b < a)

theorem length_buildDigits (h : Handle) : h.buildDigits.length = 32 := by
  simp [buildDigits, Id.length_digits]

end Handle

end ResourceHost
