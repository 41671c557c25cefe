import Monorepo.Proofs.Glob.Children
import Monorepo.Proofs.Registry.Standpoint

/-! Which packages a registry has. A root without magic is one package, there or not, and a
directory with `/*` behind it is one for each directory in it, whatever characters the base is
written with. -/
namespace Monorepo
open Monorepo.Path

namespace FileSystem

/-- The names of the directories in `dir`, links to directories included: each once, and in the
order of their bytes. Names that are no texts are left out, and a directory whose names are kept
back has none. -/
structure IsListing (fs : FileSystem) (dir : Path) (names : List Segment) : Prop where
  mem : ∀ s, s ∈ names ↔ (Path.mk s).IsText ∧ fs.HasEntry dir s ∧ fs.IsOpen dir ∧
    fs.isDirectory (dir.join ⟨s⟩) = true
  ascending : names.Pairwise fun s t => Utf8.bytes s < Utf8.bytes t

theorem IsListing.unique {fs : FileSystem} {dir : Path} {names names' : List Segment}
    (h : fs.IsListing dir names) (h' : fs.IsListing dir names') : names = names' := by
  have hnodup {names : List Segment} (h : fs.IsListing dir names) : names.Nodup := by
    rw [List.nodup_iff_pairwise_ne]
    refine h.ascending.imp ?_
    rintro s _ hlt rfl
    exact List.lt_irrefl _ hlt
  have hperm : names.Perm names' := by
    rw [List.perm_ext_iff_of_nodup (hnodup h) (hnodup h')]
    exact fun s => (h.mem s).trans (h'.mem s).symm
  refine hperm.eq_of_pairwise (fun s t _ _ hst hts => ?_) h.ascending h'.ascending
  exact absurd (List.lt_trans hst hts) (List.lt_irrefl _)

end FileSystem

namespace Registry
variable {fs : FileSystem} {base : Path} {d root : String} {roots : List Path} {item : Item}
  {items : List Item} {rootss : List (List Path)}

structure IsPlain (d : String) : Prop where
  ne_empty : d ≠ ""
  isRelative : (Path.ofString d).isAbsolute = false
  noMagic : Glob.hasMagic d = false

inductive StandsFor (fs : FileSystem) (base : Path) : String → List Path → Prop
  | single {d : String} (hd : IsPlain d) :
    StandsFor fs base d [(base.join (.ofString d)).normalize]
  | eachIn {d : String} {names : List Segment} (hd : IsPlain d)
    (hnames : fs.IsListing (base.lossy.join (.ofString d)) names) :
    StandsFor fs base (d ++ "/*")
      (names.map fun s => ((base.lossy.join (.ofString d)).join ⟨s⟩).normalize)

theorem hasMagic_each (d : String) : Glob.hasMagic (d ++ "/*") = true := by simp [Glob.hasMagic]

/-- A root stands for one list of packages at most. -/
theorem StandsFor.unique {roots' : List Path} (h : StandsFor fs base root roots)
    (h' : StandsFor fs base root roots') : roots = roots' := by
  cases h with
  | single hd =>
    generalize hroot : root = r at h'
    cases h' with
    | single => rfl
    | eachIn =>
      have hmagic := hd.noMagic
      rw [hroot, hasMagic_each] at hmagic
      cases hmagic
  | @eachIn d names _ hnames =>
    generalize hroot : d ++ "/*" = r at h'
    cases h' with
    | single hd =>
      have hmagic := hd.noMagic
      rw [← hroot, hasMagic_each] at hmagic
      cases hmagic
    | eachIn _ hnames' =>
      obtain rfl := (String.append_left_inj "/*").mp hroot
      rw [hnames.unique hnames']

end Registry
end Monorepo
