import ResourceHost.Failure
import ResourceHost.Json.Layout
import ResourceHost.Json.Printer

/-!
# Configuration

The settings of a host: where compiled resources are, what is booted, and
whether missing resources are loaded on first use.  In JSON every setting may
be left out and then has its default.
-/

namespace ResourceHost

/-- The settings of a host. -/
structure Config where
  /-- Root of the compiled resources. -/
  buildDir : String := "data/build"
  /-- Subdirectory of the root.  The default is the name of the operating
  system that the host is built for; this library is a host for Linux. -/
  platform : String := "linux"
  /-- The package that is loaded at boot. -/
  bootPackage : String := "boot"
  /-- The unit that is spawned after boot. -/
  bootUnit : Option String := none
  /-- Whether missing resources are loaded on first use. -/
  autoload : Bool := false
  deriving DecidableEq, Repr

namespace Config

/-- Settings as far as they are given. -/
structure Draft where
  buildDir : Option String := none
  platform : Option String := none
  bootPackage : Option String := none
  bootUnit : Option (Option String) := none
  autoload : Option Bool := none

/-- The settings in their declared order; none is required. -/
def layout : Json.Layout Draft := [
  { key := "build_dir", isSet := fun d => d.buildDir.isSome, required := false
    fill := fun d => do
      return { d with buildDir := some (← Json.Reader.text) } },
  { key := "platform", isSet := fun d => d.platform.isSome, required := false
    fill := fun d => do
      return { d with platform := some (← Json.Reader.text) } },
  { key := "boot_package", isSet := fun d => d.bootPackage.isSome
    required := false
    fill := fun d => do
      return { d with bootPackage := some (← Json.Reader.text) } },
  { key := "boot_unit", isSet := fun d => d.bootUnit.isSome, required := false
    fill := fun d => do
      return { d with
        bootUnit := some (← Json.Reader.optional Json.Reader.text) } },
  { key := "autoload", isSet := fun d => d.autoload.isSome, required := false
    fill := fun d => do
      return { d with autoload := some (← Json.Reader.truth) } }]

/-- The default settings with the given ones in their place. -/
def ofDraft (d : Draft) : Config :=
  let c : Config := {}
  { buildDir := d.buildDir.getD c.buildDir
    platform := d.platform.getD c.platform
    bootPackage := d.bootPackage.getD c.bootPackage
    bootUnit := d.bootUnit.getD c.bootUnit
    autoload := d.autoload.getD c.autoload }

/-- Reads settings. -/
def reader : Json.Reader Config := do return ofDraft (← layout.read {})

/-- The settings that a JSON text writes. -/
def ofText (s : String) : Except Failure Config :=
  match Json.Reader.run reader (Text.toBytes s) with
  | .ok c => .ok c
  | .error p => .error (.json p)

/-- The settings as a JSON value. -/
def toJson (c : Config) : Json.Value :=
  .object [
    ("build_dir", .text c.buildDir),
    ("platform", .text c.platform),
    ("boot_package", .text c.bootPackage),
    ("boot_unit", match c.bootUnit with | some u => .text u | none => .null),
    ("autoload", .truth c.autoload)]

/-- The compact JSON text of settings. -/
def compact (c : Config) : String := c.toJson.compact

end Config

end ResourceHost
