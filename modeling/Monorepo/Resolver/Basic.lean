import Monorepo.Path.Normal
import Monorepo.Registry
import Monorepo.Resolver.Probe
import Monorepo.Resolver.Trace
import Monorepo.Specifier

/-!
Specifiers resolved to paths. An alias or the name of the package that a file belongs to leads into
the sources of that package, the name of another package into one of its directories, and a relative
specifier is brought to its normal form; all else is left as it is.
-/
namespace Monorepo

structure ResolveError where
  path : Path
  fault : FileSystem.Fault
deriving DecidableEq

namespace ResolveError

def code (_ : ResolveError) : String := "RESOLVE_FS_ERROR"

def message (e : ResolveError) : String := s!"Filesystem error at {e.path}: {e.fault.message}"

end ResolveError

structure Resolver where
  settings : Settings
  packages : List Package
  probe : Probe

structure Resolution where
  resolved : String
  trace : Trace
deriving DecidableEq

namespace Resolver

def ofRegistry (settings : Settings) (registry : Registry) (probe : Probe) : Resolver :=
  ⟨settings, registry.packages.map (·.complete settings), probe⟩

def packageOf? (r : Resolver) (p : Path) : Option (Package × Nat) :=
  r.packages.zipIdx.find? fun q => p.isWithin q.1.root

def packageNamed? (r : Resolver) (target : List Char) : Option (Package × Nat × List Char) :=
  r.packages.zipIdx.findSome? fun (q, n) =>
    (stripToken? target (q.name.getD "").toList).map fun rest => (q, n, rest)

/-- The importing file behind its links, if links are to be followed and it is there. -/
def realOrigin (r : Resolver) (log : Recorder) (origin : Path) :
    Except ResolveError (Path × Trace) :=
  let origin := origin.normalize
  if ¬ r.settings.resolveLinks then .ok (origin, {})
  else match r.probe.realPath origin with
    | .error e => .error ⟨origin, e⟩
    | .ok none =>
      .ok (origin, log.warning "origin_missing"
        s!"{origin} does not exist; symlinks not resolved")
    | .ok (some real) =>
      let moved := !real.denotesSame origin
      .ok (real, log.step "realpath_origin" moved (some real)
        (if moved then s!"origin symlink resolved from {origin}" else "origin is not a symlink"))

def originDir (origin : Path) : Path := origin.parent?.getD origin

def directCandidate (p : Package) (rest : List Char) : Path :=
  (p.root.join (.ofChars rest)).normalize

/-- The path for `rest` in a package that others import it from: right below the root if it is
there, else in the directory of the package that fits the mode. -/
def intoPackage (r : Resolver) (log : Recorder) (p : Package) (rest : List Char)
    (isThere : Bool) : Option Path × Trace :=
  let mode := r.settings.mode
  if isThere then
    let path := directCandidate p rest
    (some path, log.step "direct_candidate" true (some path)
      "exists under the package root; used as-is")
  else
    let missed := log.step "direct_candidate" false (some (directCandidate p rest))
      "does not exist under the package root"
    if r.settings.resolvePackages then
      let path := ((p.packageDir mode).join (.ofChars rest)).normalize
      let warned := if mode.isProduction ∧ p.output.isNone
        then missed ++ log.warning "no_dest" s!"{p.title} has no dest; using source" else missed
      (some path, warned ++ log.step "substitute_package_dir" true (some path)
        s!"mapped into the {mode.name} directory")
    else (none, missed)

/-- The same, but the bare name of a package stands for its entry. -/
def intoEntry (r : Resolver) (log : Recorder) (p : Package) (rest : List Char)
    (isThere : Bool) : Option Path × Trace :=
  let (path?, trace) := r.intoPackage log p rest isThere
  if r.settings.resolveEntries ∧ rest = [] then
    let entry := (p.entryDir r.settings.mode).normalize
    (some entry, trace ++ log.step "collapse_main" true (some entry)
      "bare package import mapped to the entry directory")
  else if path?.isNone then
    (none, trace ++
      log.warning "not_rewritten" "package matched but no rewrite is enabled for it")
  else (path?, trace)

def intoModule (r : Resolver) (log : Recorder) (origin? : Option (Package × Nat))
    (target : List Char) : Except ResolveError (Option Path × Trace) :=
  match r.packageNamed? target with
  | none => .ok (none, log.step "find_target_package" false none "no configured package matches")
  | some (p, n, rest) =>
    let found := log.step "find_target_package" true (some p.root)
      s!"target belongs to {p.title}"
    if origin?.any (·.2 == n) then
      .ok (none, found ++ log.warning "not_rewritten" "target is the origin package itself")
    else
      let rest := trimSlashes rest
      match r.probe.present (directCandidate p rest) with
      | .error e => .error ⟨directCandidate p rest, e⟩
      | .ok isThere =>
        let (path?, trace) := r.intoEntry log p rest isThere
        .ok (path?, found ++ trace)

def intoSources (log : Recorder) (p : Package) (rest : List Char) : Option Path × Trace :=
  let path := (p.sourceDir.join (.ofChars (trimSlashes rest))).normalize
  (some path, log.step "resolve_prefix" true (some path)
    s!"mapped into the source directory of {p.title}")

def pathFor (r : Resolver) (log : Recorder) (origin? : Option (Package × Nat))
    (target : String) : Specifier → Except ResolveError (Option Path × Trace)
  | .relative => .ok (some (.ofString target), {})
  | .aliased p rest => .ok (intoSources log p rest)
  | .ownName p rest => .ok (intoSources log p rest)
  | .module => r.intoModule log origin? target.toList

/-- A path as seen from a directory, spelled so that it does not read as a module. As all specifiers
it is a text, and names another place where a byte on the way is at fault. -/
def spellRelative (p dir : Path) : List Char :=
  let q := if p.isAbsolute then p.relativeTo dir else if p.isEmpty then ⟨[dot]⟩ else p
  if q.startsWithDot then q.shown else '.' :: '/' :: q.shown

def spellAbsolute (p dir : Path) : List Char :=
  if p.isAbsolute then p.shown else (dir.join p).normalize.shown

/-- The specifier for a path. A slash at the end of `target` is kept. -/
def spell (target : List Char) (p dir : Path) (relative : Bool) : List Char :=
  let p := p.normalize
  let out := if relative then spellRelative p dir else spellAbsolute p dir
  if target.getLast? = some '/' ∧ out.getLast? ≠ some '/' then out ++ ['/'] else out

def originStep (log : Recorder) (origin? : Option (Package × Nat)) : Trace :=
  match origin? with
  | some (p, _) =>
    log.step "find_origin_package" true (some p.root) s!"origin belongs to {p.title}"
  | none =>
    log.step "find_origin_package" false none "origin is not inside a configured package"

def kindStep (log : Recorder) (target : String) (s : Specifier) : Trace :=
  log.step "classify_specifier" true none s!"{Quoted.quote target} is a {s.kind} specifier"

def run (r : Resolver) (log : Recorder) (target : String) (origin : Path) (relative : Bool) :
    Except ResolveError Resolution := do
  let (origin, opened) ← r.realOrigin log origin
  let origin? := r.packageOf? origin
  let specifier := Specifier.classify r.settings (origin?.map (·.1)) target
  let (path?, mapped) ← r.pathFor log origin? target specifier
  let trace := opened ++ originStep log origin? ++ kindStep log target specifier ++ mapped
  match path? with
  | none =>
    return ⟨target, trace ++
      log.step "finalize" false none "returned unchanged as a module specifier"⟩
  | some path =>
    let resolved := String.ofList (spell target.toList path (originDir origin) relative)
    let manner := if relative then "relative" else "absolute"
    return ⟨resolved, trace ++
      log.step "finalize" true none s!"{manner} path {Quoted.quote resolved}"⟩

def resolve (r : Resolver) (target : String) (origin : Path) (relative : Bool) :
    Except ResolveError String :=
  (r.run .off target origin relative).map (·.resolved)

def resolveTraced (r : Resolver) (target : String) (origin : Path) (relative : Bool) :
    Except ResolveError Resolution :=
  r.run .on target origin relative

end Resolver
end Monorepo
