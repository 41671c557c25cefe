import Monorepo.Resolver.Basic

/-!
What the tools that work on imports want to know: a loader the path to load, a linter whether there
is something to import, and a bundler which requests it need not look up itself.
-/
namespace Monorepo.Resolver

def load (r : Resolver) (target : String) (parent : Path) : Except ResolveError String :=
  r.resolve target parent true

structure Finding where
  found : Bool
  path : Option Path
deriving DecidableEq

def extensions : List String := ["js", "jsx", "ts", "tsx", "mjs", "cjs", "json"]

def firstPresent? (r : Resolver) : List Path → Except ResolveError (Option Path)
  | [] => .ok none
  | p :: rest =>
    match r.probe.present p with
    | .error e => .error ⟨p, e⟩
    | .ok true => .ok (some p)
    | .ok false => r.firstPresent? rest

/-- The paths to look at for a resolved one: itself, and then without the slashes at its end but
with each of the extensions. -/
def candidates (resolved : String) : List Path :=
  let stem := (resolved.toList.reverse.dropWhile (· = '/')).reverse
  .ofString resolved :: extensions.map fun e => .ofChars (stem ++ '.' :: e.toList)

/-- Whether the import of `source` in `file` leads to something. Modules are not looked for. -/
def lint (r : Resolver) (source : String) (file : Path) : Except ResolveError Finding := do
  let resolved ← r.resolve source file false
  let path := Path.ofString resolved
  if ¬ path.isAbsolute then return ⟨false, none⟩
  match ← r.firstPresent? (candidates resolved) with
  | some p => return ⟨true, some p⟩
  | none => return ⟨false, some path⟩

/-- The absolute path for a request that begins with the alias token of the settings. All other
requests are left to the bundler. -/
def replaceRequest (r : Resolver) (request : String) (issuer : Path) :
    Except ResolveError (Option String) :=
  let token := r.settings.aliasToken.toList
  if token = [] ∨ ¬ token.isPrefixOf request.toList then .ok none
  else (r.resolve request issuer false).map some

end Monorepo.Resolver
