import Monorepo.Glob.Pattern
import Monorepo.FileSystem.Query
import Monorepo.Path.Normal

/-!
What fits a pattern on a disk. Components are matched from the left and names in ascending order, so
a directory comes before what is in it. Where the names of a directory cannot be had, that is said
in the place of what would fit below it.
-/
namespace Monorepo.Glob

/-- The entries for a directory itself and for the one above it that a component fits. They are
tried only where the component begins with a plain dot. -/
def dotEntries : Piece → List (List Char)
  | .wild (.char '.' :: ts) =>
    [['.', '.'], ['.']].filter (fits (.char '.' :: ts))
  | _ => []

structure Unlisted where
  path : Path
  fault : FileSystem.Fault
deriving DecidableEq

mutual

/-- What fits `ps` below `p`. `turns` bounds how often a tree is entered. -/
def below (fs : FileSystem) (turns : Nat) (ps : List Piece) (p : Path) :
    List (Except Unlisted Path) :=
  match ps with
  | [] => [.ok p]
  | .literal cs :: rest =>
    let q := p.join (.ofChars cs)
    if cs = ['.'] ∨ cs = ['.', '.'] then if fs.isDirectory p then below fs turns rest q else []
    else if fs.isListed q then below fs turns rest q else []
  | piece :: rest =>
    if ¬ fs.isDirectory p then []
    else match fs.list p with
      | .error e => [.error ⟨p, e⟩]
      | .ok names =>
        (dotEntries piece).flatMap (fun cs => below fs turns rest (p.join (.ofChars cs))) ++
          names.flatMap (fun s => visit fs turns (piece :: rest) (p.join ⟨s⟩) s)
termination_by (turns, ps.length, 1)

def visit (fs : FileSystem) (turns : Nat) (ps : List Piece) (p : Path) (s : Segment) :
    List (Except Unlisted Path) :=
  match ps with
  | [] => []
  | .tree :: rest =>
    let inside := match turns with
      | 0 => []
      | turns + 1 => if fs.isDirectory p then below fs turns (.tree :: rest) p else []
    (if rest = [] then if fs.isDirectory p then [.ok p] else [] else visit fs turns rest p s) ++
      inside
  | piece :: rest => if piece.accepts s then below fs turns rest p else []
termination_by (turns, ps.length, 0)

end

def mergeTrees : List Piece → List Piece
  | .tree :: .tree :: rest => mergeTrees (.tree :: rest)
  | p :: rest => p :: mergeTrees rest
  | [] => []

/-- What fits an absolute pattern. A tree is never entered more often than a path may have bytes. -/
def search (fs : FileSystem) (pattern : List Char) :
    Except PatternFault (List (Except Unlisted Path)) := do
  let ps ← pieces pattern
  return below fs FileSystem.pathLimit (mergeTrees ps) ⟨[slash]⟩

/-- The directories that fit an absolute pattern, without detours. Those that cannot be listed are
passed over. -/
def directories (fs : FileSystem) (pattern : List Char) : Except PatternFault (List Path) := do
  let found ← search fs pattern
  return ((found.filterMap Except.toOption).filter fs.isDirectory).map Path.normalize

end Monorepo.Glob
