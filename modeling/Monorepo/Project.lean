import Monorepo.Environment
import Monorepo.Resolver.Basic

/-!
Where the configuration of a project comes from: a file of its own, or a workspace file that lists
packages, in the nearest directory from a start upwards that has one. The environment may name a
directory or a file to take instead, and a mode that overrides all others.
-/
namespace Monorepo

structure Project where
  path : Path
  root : Path
  config : Config
deriving DecidableEq

namespace Project

def configFile : String := "universal-resolver.json"

def workspaceFiles : List String := ["lerna.json", "package.json"]

def searchLimit : Nat := 100

/-- A configuration with the root and the directories that it leaves open, and its mode settled. A
mode of the environment is taken as it is; of the others the first that is set decides, and counts
only if it is a mode. -/
def settle (env : Environment) (path root : Path) (c : Config) : Project where
  path
  root
  config :=
    let mode := ((filled? c.mode <|> env.babelMode <|> env.nodeMode).bind Mode.ofString?).getD
      Settings.standard.mode
    { c with
      root := some root
      source := some ((filled? c.source).getD Settings.standard.source)
      output := some ((filled? c.output).getD Settings.projectOutput)
      aliasToken := some ((filled? c.aliasToken).getD Settings.standard.aliasToken)
      mode := some (env.mode.getD mode.name) }

def workspaceItems? (v : Json) : Option (List Json) :=
  let nested := match v.find? "workspaces" with
    | some (.array items) => some items
    | some (.object members) =>
      match (Json.object members).find? "packages" with
      | some (.array items) => some items
      | _ => none
    | _ => none
  nested <|> match v.find? "packages" with
    | some (.array items) => some items
    | _ => none

/-- The roots of the packages in a workspace file. Whatever is not a text is passed over. -/
def workspaceRoots? (v : Json) : Option (List String) :=
  (workspaceItems? v).map fun items => items.filterMap fun
    | .string s => some s
    | _ => none

def workspaceConfig? (path : Path) (v : Json) : Except ConfigError (Option Config) :=
  match workspaceRoots? v with
  | none => .ok none
  | some roots => do
    let c ← match v.find? "universal-resolver" with
      | some block => Config.ofValue path block
      | none => pure {}
    if c.packages.isEmpty then return some { c with packages := roots.map .root }
    else return some c

def findInFiles (fs : FileSystem) (env : Environment) (dir : Path) :
    List String → Except ConfigError (Option Project)
  | [] => .ok none
  | name :: names => do
    let path := dir.join (.ofString name)
    match ← (fs.readOptional path).mapError (.read path) with
    | none => findInFiles fs env dir names
    | some text =>
      let v ← (Json.parse text).mapError (.parse path)
      match ← workspaceConfig? path v with
      | none => findInFiles fs env dir names
      | some c => return some (settle env path dir c)

def findIn (fs : FileSystem) (env : Environment) (dir : Path) :
    Except ConfigError (Option Project) := do
  let path := dir.join (.ofString configFile)
  match ← (fs.readOptional path).mapError (.read path) with
  | some text => return some (settle env path dir (← Config.ofText path text))
  | none => findInFiles fs env dir workspaceFiles

def absolute (fs : FileSystem) (p : Path) : Except ConfigError Path :=
  if p.isAbsolute then .ok p.normalize
  else do
    let here ← fs.currentDirectory.mapError (.read p)
    return (here.join p).normalize

/-- The configuration in a given file, whose bytes must be in order. -/
def load (fs : FileSystem) (env : Environment) (path : Path) : Except ConfigError Project := do
  let path ← absolute fs path
  let text ← (fs.readText path).mapError (.read path)
  let c ← Config.ofText path text
  return settle env path (path.parent?.getD path) c

def findUpwards (fs : FileSystem) (env : Environment) :
    Nat → Path → Except ConfigError (Option Project)
  | 0, _ => .ok none
  | n + 1, dir => do
    match ← findIn fs env dir with
    | some project => return some project
    | none =>
      match dir.parent? with
      | none => return none
      | some parent => findUpwards fs env n parent

/-- The configuration for a start directory, unless the environment names another one. -/
def find (fs : FileSystem) (env : Environment) (start : Path) : Except ConfigError Project := do
  if let some root := env.root then
    if let some project ← findIn fs env root then
      return project
  if let some path := env.config then
    return ← load fs env path
  let start ← absolute fs start
  match ← findUpwards fs env searchLimit start with
  | some project => return project
  | none => throw (.notFound start)

def settings (p : Project) : Except ConfigError Settings := p.config.settings

def registry (p : Project) (fs : FileSystem) (manifests : ManifestSource) :
    Except ConfigError Registry :=
  Registry.build fs manifests p.config

def resolver (p : Project) (fs : FileSystem) : Except ConfigError Resolver := do
  let settings ← p.settings
  let registry ← p.registry fs (.ofFileSystem fs)
  return .ofRegistry settings registry (.ofFileSystem fs)

end Project
end Monorepo
