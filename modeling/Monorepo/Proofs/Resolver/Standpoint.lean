import Monorepo.Proofs.FileSystem.Standpoint
import Monorepo.Proofs.Resolver.Questions

/-! Resolutions are alike from everywhere. A probe is asked about absolute paths only if the file
and the roots of the packages are absolute. -/
namespace Monorepo

structure Probe.Agrees (a b : Probe) : Prop where
  realPath : ∀ p : Path, p.isAbsolute = true → a.realPath p = b.realPath p
  present : ∀ p : Path, p.isAbsolute = true → a.present p = b.present p

theorem Probe.agrees_standingAt (fs : FileSystem) (s : Standpoint) :
    (Probe.ofFileSystem (fs.standingAt s)).Agrees (.ofFileSystem fs) :=
  ⟨fun _ => FileSystem.realPath_standingAt, fun _ => FileSystem.present_standingAt⟩

namespace Resolver
variable {r : Resolver} {probe : Probe} {log : Recorder} {origin : Path} {target : String}

/-- Resolvers with probes that agree take the same decisions for files with absolute paths. -/
theorem run_probe (h : probe.Agrees r.probe) (hr : ∀ p ∈ r.packages, p.root.isAbsolute = true)
    (ho : origin.isAbsolute = true) (relative : Bool) :
    run { r with probe } log target origin relative = r.run log target origin relative := by
  refine run_congr (fun _ => h.realPath _ ?_) (fun _ path _ hasks => ?_) relative
  · rw [Path.isAbsolute_normalize, ho]
  · exact h.present path (hasks.isAbsolute hr)

end Resolver
end Monorepo
