import Monorepo.Config.Basic
import Monorepo.Json.Reader
import Monorepo.Json.Record

/-!
Configurations written as JSON and read back. A bare list stands for a configuration of nothing but
its packages.
-/
namespace Monorepo

namespace Spec

def keys : List String := ["root", "name", "source", "dest", "main", "prefix"]

def ofJson? (v : Json) : Option Spec := do
  match ← (← v.fields? keys).mapM Json.text? with
  | [root, name, source, output, entry, aliasToken] =>
    return { root, name, source, output, entry, aliasToken }
  | _ => none

def toJson (s : Spec) : Json :=
  .objectOfOptions [
    ("root", s.root.map .string), ("name", s.name.map .string), ("source", s.source.map .string),
    ("dest", s.output.map .string), ("main", s.entry.map .string),
    ("prefix", s.aliasToken.map .string)]

end Spec

namespace Config

def textKeys : List String := ["root", "mode", "prefix", "source", "dest", "main"]

def switchKeys : List String :=
  ["resolvePrefixes", "resolvePackages", "resolveMain", "resolveSymlinks", "resolveSelf"]

def keys : List String := textKeys ++ switchKeys ++ ["packages"]

def item? : Json → Option Item
  | .string r => some (.root r)
  | v => (Spec.ofJson? v).map .spec

/-- The packages of a configuration. They may be left out, but they are never null. -/
def items? : Option Json → Option (List Item)
  | none => some []
  | some (.array items) => items.mapM item?
  | some _ => none

def ofRecord? (v : Json) : Option Config := do
  let fields ← v.fields? keys
  let (settings, packages) := fields.splitAt 11
  let (texts, switches) := settings.splitAt 6
  match ← texts.mapM Json.text?, ← switches.mapM Json.switch?, packages with
  | [root, mode, aliasToken, source, output, entry],
      [resolveAliases, resolvePackages, resolveEntries, resolveLinks, resolveOwnName], [packages] =>
    return {
      root := root.map .ofString
      mode, aliasToken, source, output, entry
      resolveAliases, resolvePackages, resolveEntries, resolveLinks, resolveOwnName
      packages := ← items? packages }
  | _, _, _ => none

/-- A list of packages is tried before a record. -/
def ofJson? (v : Json) : Option Config :=
  match v with
  | .array items =>
    match items.mapM item? with
    | some packages => some { packages }
    | none => ofRecord? v
  | _ => ofRecord? v

def itemToJson : Item → Json
  | .root r => .string r
  | .spec s => s.toJson

/-- Fails just where the root cannot be written. -/
def toJson? (c : Config) : Option Json := do
  let root ← c.root.mapM Path.toJson?
  return .objectOfOptions [
    ("root", root), ("mode", c.mode.map .string),
    ("prefix", c.aliasToken.map .string), ("source", c.source.map .string),
    ("dest", c.output.map .string), ("main", c.entry.map .string),
    ("resolvePrefixes", c.resolveAliases.map .bool),
    ("resolvePackages", c.resolvePackages.map .bool),
    ("resolveMain", c.resolveEntries.map .bool), ("resolveSymlinks", c.resolveLinks.map .bool),
    ("resolveSelf", c.resolveOwnName.map .bool),
    ("packages", some (.array (c.packages.map itemToJson)))]

def ofValue (path : Path) (v : Json) : Except ConfigError Config :=
  match ofJson? v with
  | some c => .ok c
  | none => .error (.parse path ⟨.wrongShape, none⟩)

/-- The configuration that a text holds. What stands behind the value is looked at last. -/
def ofText (path : Path) (text : String) : Except ConfigError Config := do
  let (v, rest) ← (Json.locating text Json.readFirst).mapError (.parse path)
  let c ← ofValue path v
  (Json.locating text fun _ => Json.readEnd rest).mapError (.parse path)
  return c

end Config
end Monorepo
