import Monorepo.Command.Arguments
import Monorepo.Command.Report

/-!
Commands carried out on a disk. The outcome is what is printed and the status to exit with.
-/
namespace Monorepo.Command

structure Outcome where
  status : Nat
  output : String
deriving DecidableEq

inductive Failure where
  | reported (code message : String)
  /-- The report would hold a path that is no text. -/
  | unwritable

def ofConfigError (e : ConfigError) : Failure := .reported e.code e.message

def ofResolveError (e : ResolveError) : Failure := .reported e.code e.message

def report (v? : Option Json) : Except Failure String :=
  match v? with
  | some v => .ok (jsonLine v)
  | none => .error .unwritable

def directory (fs : FileSystem) (o : Options) : Path :=
  match o.directory, fs.currentDirectory with
  | some d, .ok here => here.join d
  | some d, .error _ => d
  | none, .ok here => here
  | none, .error _ => .ofString "."

/-- The environment as the options leave it. A configuration file that is named replaces both places
that the environment may name. -/
def environment (dir : Path) (vars : List (String × Word)) (o : Options) : Environment :=
  let env := Environment.ofVariables vars
  let env := match o.config with
    | none => env
    | some config => { env with root := none, config := some (dir.join config) }
  { env with mode := (o.mode.map Mode.name) <|> env.mode }

def projectOf (fs : FileSystem) (vars : List (String × Word)) (o : Options) :
    Except Failure (Project × Resolver) := Except.mapError ofConfigError do
  let dir := directory fs o
  let project ← Project.find fs (environment dir vars o) dir
  return (project, ← project.resolver fs)

def perform (fs : FileSystem) (vars : List (String × Word)) (o : Options) :
    Task → Except Failure String
  | .version =>
    return if o.json then jsonLine versionReport else lines [versionLine]
  | .packages => do
    let (project, r) ← projectOf fs vars o
    if o.json then report (packagesReport? project r) else return lines (packagesLines project r)
  | .resolve i => do
    let (_, r) ← projectOf fs vars o
    let importer := (directory fs o).join i.importer
    let resolved ← (r.resolve i.target importer (!i.absolute)).mapError ofResolveError
    return if o.json then jsonLine (resolveReport i.target importer resolved) else lines [resolved]
  | .explain i => do
    let (_, r) ← projectOf fs vars o
    let importer := (directory fs o).join i.importer
    let result ← (r.resolveTraced i.target importer (!i.absolute)).mapError ofResolveError
    if o.json then report (explainReport? i.target importer r.settings.mode (!i.absolute) result)
    else return lines (explainLines i.target importer result)

/-- A failure is printed only where JSON is asked for. A command line that is not in order prints
nothing, nor does a report that cannot be written; each has a status of its own. -/
def run (fs : FileSystem) (vars : List (String × Word)) (args : List Word) : Outcome :=
  match parse args with
  | none => ⟨2, ""⟩
  | some .showVersion => ⟨0, lines [versionLine]⟩
  | some (.perform o task) =>
    match perform fs vars o task with
    | .ok output => ⟨0, output⟩
    | .error (.reported code message) =>
      ⟨1, if o.json then jsonLine (failureReport code message) else ""⟩
    | .error .unwritable => ⟨101, ""⟩

end Monorepo.Command
