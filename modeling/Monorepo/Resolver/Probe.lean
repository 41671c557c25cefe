import Monorepo.FileSystem.Query

/-!
What resolution asks of a disk: the real path of a file, and whether there is something at a path.
-/
namespace Monorepo

structure Probe where
  realPath : Path → Except FileSystem.Fault (Option Path)
  present : Path → Except FileSystem.Fault Bool

def Probe.ofFileSystem (fs : FileSystem) : Probe where
  realPath := fs.realPath
  present := fs.present

end Monorepo
