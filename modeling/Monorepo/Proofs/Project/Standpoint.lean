import Monorepo.Proofs.Project.Place
import Monorepo.Proofs.Resolver.Standpoint

/-! Projects are found alike from everywhere, if the environment names its places by paths from the
root. A file that it names otherwise counts from where one stands. -/
namespace Monorepo

structure Environment.IsAnchored (env : Environment) : Prop where
  root : ∀ p, env.root = some p → p.isAbsolute = true
  config : ∀ p, env.config = some p → p.isAbsolute = true

namespace Project
open Monorepo.FileSystem
variable {fs : FileSystem} {s : Standpoint} {env : Environment} {dir start path : Path}
    {p : Project}

theorem findInFiles_standingAt (ha : dir.isAbsolute = true) (names : List String) :
    findInFiles (fs.standingAt s) env dir names = findInFiles fs env dir names := by
  induction names with
  | nil => rfl
  | cons name names ih =>
    rw [findInFiles, findInFiles, readOptional_standingAt (Path.isAbsolute_join dir _ ha), ih]

theorem findIn_standingAt (ha : dir.isAbsolute = true) :
    findIn (fs.standingAt s) env dir = findIn fs env dir := by
  rw [findIn, findIn, readOptional_standingAt (Path.isAbsolute_join dir _ ha),
    findInFiles_standingAt ha]

theorem load_eq_of_absolute {q : Path} (h : absolute fs path = .ok q) :
    load fs env path = (fs.readText q).mapError (.read q) >>= fun text =>
      (Config.ofText q text).map (settle env q (q.parent?.getD q)) := by
  obtain ⟨ha, hn⟩ := normal_of_absolute h
  rw [← load_of_absolute (by rw [absolute_of_isAbsolute fs ha, hn]), load, load, h,
    absolute_of_isAbsolute fs ha, hn]

theorem load_standingAt (ha : path.isAbsolute = true) :
    load (fs.standingAt s) env path = load fs env path := by
  rw [load_eq_of_absolute (absolute_of_isAbsolute _ ha),
    load_eq_of_absolute (absolute_of_isAbsolute _ ha),
    readText_standingAt ((Path.isAbsolute_normalize path).trans ha)]

theorem findUpwards_standingAt (ha : dir.isAbsolute = true) (n : Nat) :
    findUpwards (fs.standingAt s) env n dir = findUpwards fs env n dir := by
  induction n generalizing dir with
  | zero => rfl
  | succ n ih =>
    rw [findUpwards, findUpwards, findIn_standingAt ha]
    obtain ⟨-, hnone⟩ | ⟨parent, hparent, hp, -⟩ := Path.parent?_of_isAbsolute dir ha
    · rw [hnone]
    · rw [hparent]
      simp only [ih hp]

theorem findElsewhere_standingAt (hconfig : ∀ p, env.config = some p → p.isAbsolute = true)
    (ha : start.isAbsolute = true) :
    findElsewhere (fs.standingAt s) env start = findElsewhere fs env start := by
  unfold findElsewhere
  cases hc : env.config with
  | some path => exact load_standingAt (hconfig path hc)
  | none =>
    have hn : start.normalize.isAbsolute = true := (Path.isAbsolute_normalize start).trans ha
    dsimp only
    rw [absolute_of_isAbsolute _ ha, absolute_of_isAbsolute _ ha]
    change (findUpwards _ env searchLimit start.normalize >>= _) =
      (findUpwards _ env searchLimit start.normalize >>= _)
    rw [findUpwards_standingAt hn]

theorem find_standingAt (henv : env.IsAnchored) (ha : start.isAbsolute = true) :
    find (fs.standingAt s) env start = find fs env start := by
  rw [find_eq, find_eq, findElsewhere_standingAt henv.config ha]
  cases hr : env.root with
  | none => rfl
  | some root =>
    dsimp only
    rw [findIn_standingAt (henv.root root hr)]

/-- What is found has a root that does not depend on where one stands. -/
theorem isAbsolute_root_of_find (henv : ∀ p, env.root = some p → p.isAbsolute = true)
    (h : find fs env start = .ok p) : p.root.isAbsolute = true := by
  obtain ⟨dir, hdir, hfound⟩ | helse := isNamed_or_findElsewhere h
  · rw [(isFoundIn_of_findIn hfound).root_eq]
    exact henv dir hdir
  · exact (isPlaced_of_findElsewhere helse).2.isAbsolute_root

/-- The resolver of a project with an absolute root differs only in the disk it will ask. -/
theorem resolver_standingAt (hroot : p.config.root = some p.root) (ha : p.root.isAbsolute = true) :
    p.resolver (fs.standingAt s) =
      (p.resolver fs).map fun r => { r with probe := .ofFileSystem (fs.standingAt s) } := by
  unfold resolver
  rw [(registry_standingAt hroot ha fs s).2]
  cases p.settings with
  | error e => rfl
  | ok settings => cases p.registry fs (.ofFileSystem fs) <;> rfl

/-- A file that the environment names by another path counts from where one stands. -/
theorem find_from_here {here file : Path} (hhere : fs.currentDirectory = .ok here)
    (hc : env.config = some file) :
    find fs { env with config := some (here.join file) } start = find fs env start := by
  have ha := Path.isAbsolute_join here file (isAbsolute_of_currentDirectory hhere)
  have hload : load fs { env with config := some (here.join file) } (here.join file) =
      load fs env file := by
    rw [load_eq_of_absolute (absolute_of_isAbsolute fs ha), load_eq_of_absolute (absolute_eq hhere)]
    rfl
  have helse : findElsewhere fs { env with config := some (here.join file) } start =
      findElsewhere fs env start := by
    unfold findElsewhere
    rw [hc]
    exact hload
  rw [find_eq, find_eq, helse]
  rfl

end Project
end Monorepo
