import ModelLabels.Toml.Document
/-! # Configuration of a renderer

A configuration comes from a file in the TOML format.  In its table `templates` the key `cache` says
whether templates are kept and the key `capacity` how many; what is missing has a default, and what
is not known is ignored.

* `RenderConfig.ofToml?`: the configuration of a file, or why there is none.
-/

namespace ModelLabels
set_option autoImplicit false

/-- Whether a renderer keeps the templates it has read, and how many of them. -/
structure RenderConfig where
  cacheTemplates : Bool
  cacheCapacity : Nat
  deriving Repr, DecidableEq

/-- Why a text is no configuration. -/
inductive ConfigError where
  /-- The text is not in the format, or a value has the wrong type. -/
  | malformed
  /-- There is no room for a template. -/
  | zeroCapacity
  deriving Repr, DecidableEq

/-- The wording of an error. -/
def ConfigError.message : ConfigError → String
  | malformed => "Failed to parse config TOML"
  | zeroCapacity => "Template cache capacity must be at least 1"

namespace RenderConfig

/-- Templates are not kept, and there is room for 256 of them. -/
def default : RenderConfig := ⟨false, 256⟩

/-- What a file says about templates. -/
structure Settings where
  cache : Option Bool
  capacity : Option Nat

/-- A truth value that may be missing. -/
def flag? : Option Toml.Value → Except ConfigError (Option Bool)
  | none => .ok none
  | some (.boolean b) => .ok (some b)
  | some _ => .error .malformed

/-- A number from zero that may be missing. -/
def count? : Option Toml.Value → Except ConfigError (Option Nat)
  | none => .ok none
  | some (.integer n) => if 0 ≤ n then .ok (some n.toNat) else .error .malformed
  | some _ => .error .malformed

/-- What two values that may be missing say. -/
def settings (cache capacity : Option Toml.Value) : Except ConfigError Settings :=
  match flag? cache, count? capacity with
  | .ok cache, .ok capacity => .ok ⟨cache, capacity⟩
  | _, _ => .error .malformed

/-- What the value of `templates` says: a table by key, an array by position.  A date is taken for a
table without known keys. -/
def settingsOf : Option Toml.Value → Except ConfigError Settings
  | none => settings none none
  | some (.table _ entries) =>
    settings (Toml.Entries.get? entries "cache") (Toml.Entries.get? entries "capacity")
  | some (.array (cache :: capacity :: _)) => settings (some cache) (some capacity)
  | some (.dateTime _) => settings none none
  | some _ => .error .malformed

/-- A configuration with defaults for what is missing. -/
def ofSettings (s : Settings) : Except ConfigError RenderConfig :=
  if s.capacity = some 0 then .error .zeroCapacity
  else .ok ⟨s.cache.getD default.cacheTemplates, s.capacity.getD default.cacheCapacity⟩

/-- The configuration that a file holds. -/
def ofToml? (file : String) : Except ConfigError RenderConfig :=
  match Toml.entriesOf? file with
  | some entries =>
    match settingsOf (entries.get? "templates") with
    | .ok s => ofSettings s
    | .error e => .error e
  | none => .error .malformed

end RenderConfig

end ModelLabels
