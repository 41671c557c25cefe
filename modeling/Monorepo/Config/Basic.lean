import Monorepo.FileSystem.Basic
import Monorepo.Glob.Pattern
import Monorepo.Json.Printer
import Monorepo.Settings
import Monorepo.Text.Quoted

/-!
Configurations as they are written: every field may be left out, and packages are given by their
roots or by partial descriptions. The errors are those of all ways to come by a configuration.
-/
namespace Monorepo

/-- A path is written as its text, and one that has none cannot be written. -/
def Path.toJson? (p : Path) : Option Json := p.text?.map .string

/-- What a configuration or a manifest says about a package. -/
structure Spec where
  root : Option String := none
  name : Option String := none
  source : Option String := none
  output : Option String := none
  entry : Option String := none
  aliasToken : Option String := none
deriving DecidableEq, Inhabited

/-- An entry for packages: their root, which may be a pattern, or what is known of them. -/
inductive Item where
  | root (r : String)
  | spec (s : Spec)
deriving DecidableEq, Inhabited

def Item.toSpec : Item → Spec
  | root r => { root := some r }
  | spec s => s

structure Config where
  root : Option Path := none
  mode : Option String := none
  aliasToken : Option String := none
  source : Option String := none
  output : Option String := none
  entry : Option String := none
  resolveAliases : Option Bool := none
  resolvePackages : Option Bool := none
  resolveEntries : Option Bool := none
  resolveLinks : Option Bool := none
  resolveOwnName : Option Bool := none
  packages : List Item := []
deriving DecidableEq, Inhabited

inductive ConfigError where
  /-- A package has no root; `entry` is what was said about it. -/
  | missingRoot (entry : Json)
  | noPackages
  | invalidGlob (pattern : String) (fault : Glob.PatternFault)
  | read (path : Path) (fault : FileSystem.Fault)
  | parse (path : Path) (fault : Json.Fault)
  | invalidMode (value : String)
  /-- No directory from `start` upwards holds a configuration. -/
  | notFound (start : Path)

namespace ConfigError

def code : ConfigError → String
  | missingRoot _ => "CONFIG_MISSING_ROOT"
  | noPackages => "CONFIG_NO_PACKAGES"
  | invalidGlob .. => "CONFIG_INVALID_GLOB"
  | read .. => "CONFIG_READ_FAILED"
  | parse .. => "CONFIG_PARSE_FAILED"
  | invalidMode _ => "CONFIG_INVALID_MODE"
  | notFound _ => "CONFIG_NOT_FOUND"

def headline : ConfigError → String
  | missingRoot entry => "No root for package " ++ entry.compact
  | noPackages => "No packages configured"
  | invalidGlob pattern fault => s!"Invalid package glob {Quoted.quote pattern}: {fault.message}"
  | read path fault => s!"Failed to read {path}: {fault.message}"
  | parse path _ => s!"Failed to parse {path}"
  | invalidMode value =>
    "Invalid mode " ++ Quoted.quote value ++ ": expected \"development\" or \"production\""
  | notFound start => s!"Could not find packages configuration from {start}"

def message : ConfigError → String
  | parse path fault => s!"Failed to parse {path}: {fault.message}"
  | e => e.headline

end ConfigError

def Mode.parse (s : String) : Except ConfigError Mode :=
  match Mode.ofString? s with
  | some m => .ok m
  | none => .error (.invalidMode s)

namespace Config

/-- The settings of a configuration. An empty text counts as left out. -/
def settings (c : Config) : Except ConfigError Settings := do
  let standard := Settings.standard
  let mode ← match filled? c.mode with
    | none => pure standard.mode
    | some mode => Mode.parse mode
  return {
    mode
    aliasToken := (filled? c.aliasToken).getD standard.aliasToken
    source := (filled? c.source).getD standard.source
    entry := filled? c.entry
    output := filled? c.output
    resolveAliases := c.resolveAliases.getD standard.resolveAliases
    resolvePackages := c.resolvePackages.getD standard.resolvePackages
    resolveEntries := c.resolveEntries.getD standard.resolveEntries
    resolveLinks := c.resolveLinks.getD standard.resolveLinks
    resolveOwnName := c.resolveOwnName.getD standard.resolveOwnName }

end Config
end Monorepo
