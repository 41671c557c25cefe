import Monorepo.Project

/-!
What commands print: one line of JSON with its keys in alphabetical order, or lines to be read by
people. A line of JSON holds some paths as they are, and comes to nothing if one of them is no text.
-/
namespace Monorepo.Command

def version : String := "0.2.0"

def versionLine : String := s!"uniresolve {version}"

def lines (ls : List String) : String := String.join (ls.map (· ++ "\n"))

def jsonLine (v : Json) : String := v.compact ++ "\n"

def failureReport (code message : String) : Json :=
  .object [("error", .object [("code", .string code), ("message", .string message)]),
    ("ok", .bool false)]

def versionReport : Json := .object [("ok", .bool true), ("version", .string version)]

def resolveReport (target : String) (importer : Path) (resolved : String) : Json :=
  .object [("changed", .bool (resolved != target)), ("from", .string importer.text),
    ("ok", .bool true), ("resolved", .string resolved), ("target", .string target)]

def stepReport? (s : Trace.Step) : Option Json := do
  return .objectOfOptions [("detail", some (.string s.detail)), ("ok", some (.bool s.ok)),
    ("path", ← s.path.mapM Path.toJson?), ("step", some (.string s.name))]

def warningReport (w : Trace.Warning) : Json :=
  .object [("code", .string w.code), ("message", .string w.message)]

def explainReport? (target : String) (importer : Path) (mode : Mode) (relative : Bool)
    (r : Resolution) : Option Json := do
  return .object [("from", .string importer.text), ("mode", .string mode.name), ("ok", .bool true),
    ("relative", .bool relative), ("resolved", .string r.resolved), ("schema_version", .ofNat 1),
    ("target", .string target),
    ("trace", .object [("steps", .array (← r.trace.steps.mapM stepReport?)),
      ("warnings", .array (r.trace.warnings.map warningReport))])]

def stepLines (n : Nat) (s : Trace.Step) : List String :=
  let mark := if s.ok then "OK" else "SKIP"
  s!"  {n}. [{mark}] {s.name}: {s.detail}" :: (s.path.map fun p => s!"      path: {p}").toList

def explainLines (target : String) (importer : Path) (r : Resolution) : List String :=
  let unchanged := if r.resolved = target then " (unchanged)" else ""
  [s!"Specifier: {target}", s!"From: {importer}", s!"Resolved: {r.resolved}{unchanged}", "",
    "Resolution trace:"]
  ++ (r.trace.steps.zipIdx 1).flatMap (fun (s, n) => stepLines n s)
  ++ if r.trace.warnings.isEmpty then []
    else "" :: "Warnings:" :: r.trace.warnings.map fun w => s!"  [{w.code}] {w.message}"

def packageReport? (p : Package) : Option Json := do
  return .object [("dest", .ofOption .string p.output), ("main", .string p.entry),
    ("name", .ofOption .string p.name), ("prefix", .string p.aliasToken),
    ("root", ← p.root.toJson?), ("source", .string p.source)]

def packagesReport? (project : Project) (r : Resolver) : Option Json := do
  return .object [("config", .string project.path.text), ("mode", .string r.settings.mode.name),
    ("ok", .bool true), ("packages", .array (← r.packages.mapM packageReport?)),
    ("root", .string project.root.text)]

def packageLines (p : Package) : List String :=
  let name := p.name.getD "(unnamed)"
  let output := p.output.getD "-"
  [s!"  {name}", s!"    {p.root}",
    s!"    source: {p.source}  main: {p.entry}  dest: {output}  prefix: {p.aliasToken}"]

def packagesLines (project : Project) (r : Resolver) : List String :=
  [s!"Config: {project.path}", s!"Mode: {r.settings.mode.name}", "",
    s!"Packages ({r.packages.length}):"]
  ++ r.packages.flatMap packageLines

end Monorepo.Command
