import Mathlib.Data.List.Basic
import Monorepo.FileSystem.Query
import Monorepo.Proofs.FileSystem.Walk
import Monorepo.Proofs.Text.Utf8

/-! The names in a directory. Each thing in it is listed once and in the order of their bytes,
unless the names are kept back. -/
namespace Monorepo

namespace FileSystem
variable {fs : FileSystem} {l m : Location} {s t : Segment} {ts : List Segment} {dir : Path}

def LeadsInto (fs : FileSystem) (dir : Path) (l : Location) : Prop :=
  fs.follow ⟨true, false⟩ dir = .ok (.taken l) ∧ fs.isDirectoryAt l = true

def HasEntry (fs : FileSystem) (dir : Path) (s : Segment) : Prop :=
  ∃ l, fs.LeadsInto dir l ∧ fs.Holds (l ++ [s])

def IsOpen (fs : FileSystem) (dir : Path) : Prop := ∀ l, fs.LeadsInto dir l → l ∉ fs.closed

def names (fs : FileSystem) (dir : Path) : List Segment := (fs.list dir).toOption.getD []

end FileSystem
end Monorepo
