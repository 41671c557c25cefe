import Monorepo.Config.Decode
import Monorepo.FileSystem.Query
import Monorepo.Json.Guided

/-!
Package manifests, as far as they matter here: the name of a package, and a block that says where
its parts are. Where manifests come from is left open.
-/
namespace Monorepo

structure Manifest where
  name : Option String := none
  overrides : Option Spec := none
deriving DecidableEq, Inhabited

namespace Manifest

def keys : List String := ["name", "universal-resolver"]

def fields : List Json.Field :=
  [⟨"name", Json.readNullable Json.readText⟩,
    ⟨"universal-resolver", Json.readNullable <|
      Json.readRecord (Spec.keys.map fun key => ⟨key, Json.readNullable Json.readText⟩)⟩]

def ofJson? (v : Json) : Option Manifest := do
  match ← v.fields? keys with
  | [name, overrides] =>
    return {
      name := ← Json.text? name
      overrides := ← match overrides with
        | none => some none
        | some .null => some none
        | some v => (Spec.ofJson? v).map some }
  | _ => none

def parse (text : String) : Except Json.Fault Manifest :=
  Json.locating text fun cs => do
    let (v, rest) ← Json.readRecord fields cs
    Json.readEnd rest
    match ofJson? v with
    | some m => return m
    | none => Json.stopBefore .wrongShape rest

end Manifest

abbrev ManifestSource := Path → Except ConfigError (Option Manifest)

namespace ManifestSource

def none : ManifestSource := fun _ => .ok .none

def ofFileSystem (fs : FileSystem) : ManifestSource := fun root => do
  let path := root.join (.ofString "package.json")
  match ← (fs.readOptional path).mapError (.read path) with
  | .none => return .none
  | some text => return some (← (Manifest.parse text).mapError (.parse path))

end ManifestSource
end Monorepo
