import Monorepo.Proofs.FileSystem.Trimmed
import Monorepo.Proofs.Glob.Quoted
import Monorepo.Proofs.Path.Lossy

/-! What a pattern finds that spells a path and ends with a piece for everything in it. The search
goes down the path as it is spelled, and at its end lists the directory there. -/
namespace Monorepo.Glob
open FileSystem Monorepo.Path Component

variable {fs : FileSystem} {turns : Nat} {piece : Piece} {ps rest : List Piece} {p : Path}
  {s : Segment} {ss : List Segment} {cs : List Char} {ts : List Token}

def found (fs : FileSystem) (turns : Nat) (ps : List Piece) (p : Path) : List Path :=
  (below fs turns ps p).filterMap Except.toOption

end Monorepo.Glob
