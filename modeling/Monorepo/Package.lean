import Monorepo.Config.Basic

/-!
Packages. A descriptor says what is known of a package; the settings fill in the rest.
-/
namespace Monorepo

structure Descriptor where
  name : Option String := none
  root : Path := .empty
  source : Option String := none
  output : Option String := none
  entry : Option String := none
  aliasToken : Option String := none
deriving DecidableEq, Inhabited

structure Package where
  /-- A package without a name takes part in the resolution of aliases only. -/
  name : Option String
  root : Path
  source : String
  output : Option String
  entry : String
  aliasToken : String
deriving DecidableEq, Inhabited

namespace Descriptor

def toJson? (d : Descriptor) : Option Json := do
  let text := Json.ofOption Json.string
  return .object [("name", text d.name), ("root", ← d.root.toJson?), ("source", text d.source),
    ("dest", text d.output), ("main", text d.entry), ("prefix", text d.aliasToken)]

/-- A descriptor from what was said about a package. What `spec` leaves unset or empty is taken from
`fallback`. -/
def ofSpec (root : Path) (spec fallback : Spec) : Descriptor where
  root
  name := filled? spec.name <|> filled? fallback.name
  source := filled? spec.source <|> filled? fallback.source
  output := filled? spec.output <|> filled? fallback.output
  entry := filled? spec.entry <|> filled? fallback.entry
  aliasToken := filled? spec.aliasToken <|> filled? fallback.aliasToken

/-- The package with its unset fields filled. The entry is the source directory unless something
else is said. -/
def complete (d : Descriptor) (s : Settings) : Package :=
  let source := d.source.getD s.source
  { name := d.name
    root := d.root
    source
    output := d.output <|> s.output
    entry := (d.entry <|> s.entry).getD source
    aliasToken := d.aliasToken.getD s.aliasToken }

end Descriptor

namespace Package

def sourceDir (p : Package) : Path := p.root.join (.ofString p.source)

def outputOr (p : Package) (mode : Mode) (otherwise : String) : Path :=
  match mode, p.output with
  | .production, some output => p.root.join (.ofString output)
  | _, _ => p.root.join (.ofString otherwise)

/-- The directory that the paths of the package map to when others import them. -/
def packageDir (p : Package) (mode : Mode) : Path := p.outputOr mode p.source

/-- The directory that the bare name of the package stands for. -/
def entryDir (p : Package) (mode : Mode) : Path := p.outputOr mode p.entry

def title (p : Package) : String := p.name.getD p.root.text

end Package
end Monorepo
