import Monorepo.Glob.Walk
import Monorepo.Manifest
import Monorepo.Package

/-!
The packages of a configuration in their order. A root that is a pattern stands for each directory
that fits it.
-/
namespace Monorepo

structure Registry where
  packages : List Descriptor
deriving DecidableEq

namespace Registry

/-- A registry has packages, and each of them has a root. An empty root is always written. -/
def ofDescriptors (ds : List Descriptor) : Except ConfigError Registry :=
  match ds.find? (·.root.isEmpty) with
  | some d => .error (.missingRoot (d.toJson?.getD .null))
  | none => if ds.isEmpty then .error .noPackages else .ok ⟨ds⟩

def base (fs : FileSystem) (root : Option Path) : Except ConfigError Path := do
  match root.filter Path.isAbsolute with
  | some root => return root
  | none =>
    let here ← fs.currentDirectory.mapError (.read (.ofString "."))
    match root with
    | none => return here
    | some root => return (here.join root).normalize

def expandRoot (fs : FileSystem) (base : Path) (root : String) : Except ConfigError (List Path) :=
  if Glob.hasMagic root then
    let pattern :=
      if (Path.ofString root).isAbsolute then root.toList
      else Glob.quote base.shown ++ '/' :: root.toList
    (Glob.directories fs pattern).mapError (.invalidGlob root)
  else .ok [(base.join (.ofString root)).normalize]

/-- The descriptor of a package. Its manifest is asked for what `spec` leaves open; one that cannot
be read counts as missing. -/
def describe (manifests : ManifestSource) (spec : Spec) (root : Path) : Descriptor :=
  match manifests root with
  | .ok (some m) =>
    let d := Descriptor.ofSpec root spec (m.overrides.getD {})
    { d with name := d.name <|> filled? m.name }
  | _ => .ofSpec root spec {}

def describeItem (fs : FileSystem) (manifests : ManifestSource) (base : Path)
    (item : Item) : Except ConfigError (List Descriptor) := do
  let spec := item.toSpec
  match filled? spec.root with
  | none => throw (.missingRoot spec.toJson)
  | some root => return (← expandRoot fs base root).map (describe manifests spec)

def build (fs : FileSystem) (manifests : ManifestSource) (c : Config) :
    Except ConfigError Registry := do
  let base ← base fs c.root
  let ds ← c.packages.mapM (describeItem fs manifests base)
  ofDescriptors ds.flatten

end Registry
end Monorepo
