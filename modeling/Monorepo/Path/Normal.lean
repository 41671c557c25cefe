import Monorepo.Path.Basic

/-!
Paths without detours. A normal path is a root or a run of `..`, followed by names only; nothing
here looks at a disk, so `a/..` vanishes whatever `a` may be.
-/
namespace Monorepo

namespace Component

/-- Adds a component to a trail that is kept last first. `..` undoes a name and stays at the
root. -/
def trail : List Component → Component → List Component
  | cs, .current => cs
  | .name _ :: cs, .parent => cs
  | .root :: cs, .parent => .root :: cs
  | cs, c => c :: cs

def simplify (cs : List Component) : List Component := (cs.foldl trail []).reverse

def dropShared : List Component → List Component → List Component × List Component
  | a :: as, b :: bs => if a = b then dropShared as bs else (a :: as, b :: bs)
  | as, bs => (as, bs)

end Component

namespace Path

/-- The normal form. The empty path is the normal form of the directory one is in. -/
def normalize (p : Path) : Path := ofComponents (Component.simplify p.components)

def relativeTo (p base : Path) : Path :=
  let (down, up) := Component.dropShared p.normalize.components base.normalize.components
  ofComponents (up.map (fun _ => .parent) ++ down)

def startsWithDot (p : Path) : Bool :=
  match p.components with
  | .current :: _ => true
  | .parent :: _ => true
  | _ => false

end Path
end Monorepo
