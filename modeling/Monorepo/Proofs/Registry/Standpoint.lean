import Monorepo.Proofs.FileSystem.Standpoint
import Monorepo.Proofs.Registry.Manifest

/-! Registries are built alike from everywhere. Once the root of a configuration is settled, all
that is asked of the disk is asked by paths from the root. -/
namespace Monorepo
variable {fs : FileSystem} {s : Standpoint}

namespace Glob
open FileSystem

/-! Both searches recurse as their definitions do: on the turns left, then on the pieces. -/

mutual

theorem below_standingAt (turns : Nat) (ps : List Piece) (p : Path) (ha : p.isAbsolute = true) :
    below (fs.standingAt s) turns ps p = below fs turns ps p := by
  match ps with
  | [] => rw [below, below]
  | piece :: rest =>
    have hentry (t : Segment) : (p.join ⟨t⟩).isAbsolute = true := Path.isAbsolute_join p ⟨t⟩ ha
    have hbelow (t : Segment) := below_standingAt turns rest _ (hentry t)
    have hvisit (t : Segment) := visit_standingAt turns (piece :: rest) _ t (hentry t)
    have hlisted (t : Segment) : (fs.standingAt s).isListed (p.join ⟨t⟩) =
        fs.isListed (p.join ⟨t⟩) := isListed_standingAt (hentry t)
    rw [below.eq_def, below.eq_def fs]
    cases piece <;>
      simp only [isDirectory_standingAt ha, list_standingAt ha, hlisted, hbelow, hvisit]
termination_by (turns, ps.length, 1)

theorem visit_standingAt (turns : Nat) (ps : List Piece) (p : Path) (t : Segment)
    (ha : p.isAbsolute = true) :
    visit (fs.standingAt s) turns ps p t = visit fs turns ps p t := by
  match ps with
  | [] => rw [visit, visit]
  | piece :: rest =>
    have hbelow := below_standingAt turns rest p ha
    have hvisit := visit_standingAt turns rest p t ha
    rw [visit.eq_def, visit.eq_def fs]
    cases piece with
    | literal u => simp only [hbelow]
    | wild ts => simp only [hbelow]
    | tree =>
      cases turns with
      | zero => simp only [isDirectory_standingAt ha, hvisit]
      | succ n =>
        simp only [isDirectory_standingAt ha, hvisit, below_standingAt n (.tree :: rest) p ha]
termination_by (turns, ps.length, 0)

end

theorem search_standingAt (pattern : List Char) :
    search (fs.standingAt s) pattern = search fs pattern := by
  unfold search
  refine congrArg (pieces pattern >>= ·) (funext fun ps => ?_)
  rw [below_standingAt _ _ _ rfl]

theorem directories_standingAt (pattern : List Char) :
    directories (fs.standingAt s) pattern = directories fs pattern := by
  rw [directories, directories, search_standingAt]
  cases hsearch : search fs pattern with
  | error e => rfl
  | ok found =>
    have habs (q : Path) (hq : q ∈ found.filterMap Except.toOption) : q.isAbsolute = true := by
      obtain ⟨ps, -, h⟩ := (bind_eq_ok_iff _ _ _).mp hsearch
      cases h
      exact forall_mem_below (fun p t hp => Path.isAbsolute_join p ⟨t⟩ hp) _ _ _ rfl q
        (mem_filterMap_toOption.mp hq)
    exact congrArg (fun ps => Except.ok (ps.map Path.normalize))
      (List.filter_congr fun q hq => isDirectory_standingAt (habs q hq))

end Glob

theorem ManifestSource.ofFileSystem_standingAt {root : Path} (ha : root.isAbsolute = true) :
    ofFileSystem (fs.standingAt s) root = ofFileSystem fs root := by
  unfold ofFileSystem
  dsimp only
  rw [FileSystem.readOptional_standingAt (Path.isAbsolute_join root _ ha)]

namespace Registry
variable {m₁ m₂ : ManifestSource}

theorem expandRoot_standingAt (base : Path) (root : String) :
    expandRoot (fs.standingAt s) base root = expandRoot fs base root := by
  unfold expandRoot
  simp only [Glob.directories_standingAt]

theorem base_of_isAbsolute {root : Path} (ha : root.isAbsolute = true) :
    base fs (some root) = .ok root := by
  unfold base
  rw [Option.filter_some, if_pos ha]
  rfl

theorem sites_standingAt {c : Config} {root : Path} (hroot : c.root = some root)
    (ha : root.isAbsolute = true) : sites (fs.standingAt s) c = sites fs c := by
  have hsites : sitesOf (fs.standingAt s) = sitesOf fs := by
    funext base item
    simp only [sitesOf, expandRoot_standingAt]
  rw [sites, sites, hroot, base_of_isAbsolute ha, base_of_isAbsolute ha, hsites]

/-- Below a root that is absolute, registries are the same from everywhere if their manifests
are. -/
theorem build_standingAt {c : Config} {root : Path} (hroot : c.root = some root)
    (ha : root.isAbsolute = true) (hm : ∀ p : Path, p.isAbsolute = true → m₁ p = m₂ p) :
    build (fs.standingAt s) m₁ c = build fs m₂ c := by
  rw [build_eq_sites, build_eq_sites, sites_standingAt hroot ha]
  cases hs : sites fs c with
  | error e => rfl
  | ok ss =>
    refine congrArg ofDescriptors (List.map_congr_left fun t ht => describe_congr ?_)
    rw [ManifestSource.found?, ManifestSource.found?, hm _ (isAbsolute_of_mem_sites hs t ht)]

theorem build_ofFileSystem_standingAt {c : Config} {root : Path} (hroot : c.root = some root)
    (ha : root.isAbsolute = true) :
    build (fs.standingAt s) (.ofFileSystem (fs.standingAt s)) c = build fs (.ofFileSystem fs) c :=
  build_standingAt hroot ha fun _ => ManifestSource.ofFileSystem_standingAt

end Registry
end Monorepo
