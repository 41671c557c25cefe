import Monorepo.Package

/-!
What an import may name: a path relative to the importing file, the sources of the package that the
file belongs to, or a module.
-/
namespace Monorepo

/-- What follows `token` in `target` if `target` is the token or goes on behind it with a slash. The
empty token stands for nothing. -/
def stripToken? (target token : List Char) : Option (List Char) :=
  if token = [] then none
  else match token.isPrefixOf? target with
    | some [] => some []
    | some ('/' :: rest) => some ('/' :: rest)
    | _ => none

def trimSlashes (cs : List Char) : List Char := cs.dropWhile (· = '/')

inductive Specifier where
  | relative
  /-- The alias token of the package, followed by `rest`. -/
  | aliased (package : Package) (rest : List Char)
  /-- The name of the package itself, followed by `rest`. -/
  | ownName (package : Package) (rest : List Char)
  | module

namespace Specifier

def kind : Specifier → String
  | relative => "relative"
  | aliased .. => "prefix"
  | ownName .. => "self"
  | module => "module"

def isRelative (target : String) : Bool :=
  (stripToken? target.toList ['.']).isSome || (stripToken? target.toList ['.', '.']).isSome

/-- What `target` is in a file of the package `origin`. Where a kind is not to be resolved, it is
left to module lookup. -/
def classify (settings : Settings) (origin : Option Package) (target : String) : Specifier :=
  if isRelative target then relative
  else match origin with
    | none => module
    | some p =>
      match stripToken? target.toList p.aliasToken.toList with
      | some rest => if settings.resolveAliases then aliased p rest else module
      | none =>
        match stripToken? target.toList (p.name.getD "").toList with
        | some rest => if settings.resolveOwnName then ownName p rest else module
        | none => module

end Specifier
end Monorepo
