import Monorepo.Proofs.Config
import Monorepo.Proofs.Glob
import Monorepo.Registry

/-! What a registry hands on. A root is brought to its normal form whether it is spelled out or
found by a pattern, and a package gets no empty text, neither from its entry nor from its
manifest. -/
namespace Monorepo

structure Descriptor.IsSound (d : Descriptor) : Prop where
  isAbsolute : d.root.isAbsolute = true
  normal : d.root.normalize = d.root
  name : d.name ≠ some ""
  source : d.source ≠ some ""
  output : d.output ≠ some ""
  entry : d.entry ≠ some ""
  aliasToken : d.aliasToken ≠ some ""

/-- A package with a root in its normal form, all of its directories and an alias token. Only a name
may be missing. -/
structure Package.IsSound (p : Package) : Prop where
  isAbsolute : p.root.isAbsolute = true
  normal : p.root.normalize = p.root
  name : p.name ≠ some ""
  source : p.source ≠ ""
  output : ∃ o, p.output = some o ∧ o ≠ ""
  entry : p.entry ≠ ""
  aliasToken : p.aliasToken ≠ ""

namespace Descriptor

theorem isSound_ofSpec (root : Path) (spec fallback : Spec) (ha : root.isAbsolute = true)
    (hn : root.normalize = root) : (ofSpec root spec fallback).IsSound where
  isAbsolute := ha
  normal := hn
  name := filled?_orElse_ne _ _
  source := filled?_orElse_ne _ _
  output := filled?_orElse_ne _ _
  entry := filled?_orElse_ne _ _
  aliasToken := filled?_orElse_ne _ _

theorem IsSound.complete {d : Descriptor} {s : Settings} (hd : d.IsSound) (hs : s.IsSound) :
    (d.complete s).IsSound where
  isAbsolute := hd.isAbsolute
  normal := hd.normal
  name := hd.name
  source := getD_ne _ _ hd.source hs.source
  output := by
    obtain ⟨o, ho, hne⟩ := hs.output
    have hout := hd.output
    cases hc : d.output with
    | none => exact ⟨o, by simp [Descriptor.complete, hc, ho], hne⟩
    | some o' => exact ⟨o', by simp [Descriptor.complete, hc], by simpa [hc] using hout⟩
  entry := getD_ne _ _ (orElse_ne _ _ hd.entry hs.entry) (getD_ne _ _ hd.source hs.source)
  aliasToken := getD_ne _ _ hd.aliasToken hs.aliasToken

end Descriptor

namespace Registry
variable {fs : FileSystem} {manifests : ManifestSource}

theorem isAbsolute_currentDirectory {here : Path} (h : fs.currentDirectory = .ok here) :
    here.isAbsolute = true := by
  unfold FileSystem.currentDirectory at h
  split_ifs at h
  cases h
  rfl

theorem isAbsolute_base {root : Option Path} {b : Path} (h : base fs root = .ok b) :
    b.isAbsolute = true := by
  unfold base at h
  cases hr : root.filter Path.isAbsolute with
  | some root =>
    rw [hr] at h
    cases h
    exact (Option.filter_eq_some_iff.mp hr).2
  | none =>
    rw [hr] at h
    obtain ⟨here, hhere, h⟩ := (bind_eq_ok_iff _ _ _).mp h
    have habs := isAbsolute_currentDirectory ((mapError_eq_ok_iff _ _ _).mp hhere)
    cases root with
    | none =>
      cases h
      exact habs
    | some root =>
      cases h
      rw [Path.isAbsolute_normalize, Path.isAbsolute_join _ _ habs]

theorem normal_of_mem_expandRoot {b q : Path} {root : String} {roots : List Path}
    (hb : b.isAbsolute = true) (h : expandRoot fs b root = .ok roots) (hq : q ∈ roots) :
    q.isAbsolute = true ∧ q.normalize = q := by
  unfold expandRoot at h
  split at h
  · exact Glob.normal_of_mem_directories ((mapError_eq_ok_iff _ _ _).mp h) hq
  · cases h
    obtain rfl := List.mem_singleton.mp hq
    exact ⟨by rw [Path.isAbsolute_normalize, Path.isAbsolute_join _ _ hb],
      Path.normalize_normalize _⟩

/-- A manifest only fills what is left open, and not with empty texts. -/
theorem isSound_describe (spec : Spec) (root : Path) (ha : root.isAbsolute = true)
    (hn : root.normalize = root) : (describe manifests spec root).IsSound := by
  unfold describe
  split
  · next m _ =>
    have hs := Descriptor.isSound_ofSpec root spec (m.overrides.getD {}) ha hn
    exact { hs with name := orElse_ne _ _ hs.name (filled?_ne _) }
  · exact Descriptor.isSound_ofSpec root spec {} ha hn

theorem isSound_of_mem_describeItem {b : Path} {item : Item} {ds : List Descriptor}
    (hb : b.isAbsolute = true) (h : describeItem fs manifests b item = .ok ds) :
    ∀ d ∈ ds, d.IsSound := by
  intro d hd
  unfold describeItem at h
  dsimp only at h
  split at h
  · cases h
  · obtain ⟨roots, hroots, h⟩ := (bind_eq_ok_iff _ _ _).mp h
    cases h
    obtain ⟨root, hroot, rfl⟩ := List.mem_map.mp hd
    obtain ⟨ha, hn⟩ := normal_of_mem_expandRoot hb hroots hroot
    exact isSound_describe _ root ha hn

theorem ofDescriptors_eq_ok {ds : List Descriptor} {registry : Registry}
    (h : ofDescriptors ds = .ok registry) : registry.packages = ds ∧ ds ≠ [] := by
  unfold ofDescriptors at h
  split at h
  · cases h
  · split_ifs at h with he
    cases h
    exact ⟨rfl, by simpa using he⟩

theorem build_sound {c : Config} {registry : Registry} (h : build fs manifests c = .ok registry) :
    registry.packages ≠ [] ∧ ∀ d ∈ registry.packages, d.IsSound := by
  obtain ⟨b, hb, h⟩ := (bind_eq_ok_iff _ _ _).mp h
  obtain ⟨dss, hdss, h⟩ := (bind_eq_ok_iff _ _ _).mp h
  obtain ⟨hp, hne⟩ := ofDescriptors_eq_ok h
  have hsound := forall_mem_of_mapM_eq_ok (fun ds => ∀ d ∈ ds, d.IsSound) _ _ _ hdss
    (fun _ _ _ => isSound_of_mem_describeItem (isAbsolute_base hb))
  refine ⟨by rwa [hp], ?_⟩
  intro d hd
  rw [hp] at hd
  obtain ⟨ds, hds, hd⟩ := List.mem_flatten.mp hd
  exact hsound ds hds d hd

end Registry
end Monorepo
