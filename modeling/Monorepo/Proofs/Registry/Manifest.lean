import Mathlib
import Monorepo.Proofs.Registry

/-! What manifests add to a registry. Which packages there are is settled without them, and so is
every text that an entry gives. The block of a manifest fills what is left open, and its name comes
last. -/
namespace Monorepo

inductive Part where
  | name
  | source
  | output
  | entry
  | aliasToken
deriving DecidableEq

namespace Part

def ofSpec : Part → Spec → Option String
  | name, s => s.name
  | source, s => s.source
  | output, s => s.output
  | entry, s => s.entry
  | aliasToken, s => s.aliasToken

def ofDescriptor : Part → Descriptor → Option String
  | name, d => d.name
  | source, d => d.source
  | output, d => d.output
  | entry, d => d.entry
  | aliasToken, d => d.aliasToken

/-- What a manifest has for a part. Only a name may stand outside of its block. -/
def ofManifest (part : Part) (m : Manifest) : Option String :=
  (filled? (m.overrides.bind part.ofSpec)).or (if part = name then filled? m.name else none)

end Part

def ManifestSource.found? (manifests : ManifestSource) (root : Path) : Option Manifest :=
  match manifests root with
  | .ok m? => m?
  | .error _ => .none

namespace Registry
variable {fs : FileSystem} {manifests m₁ m₂ : ManifestSource} {spec : Spec} {root : Path}

theorem describe_eq :
    describe manifests spec root = match manifests.found? root with
      | some m =>
        let d := Descriptor.ofSpec root spec (m.overrides.getD {})
        { d with name := d.name <|> filled? m.name }
      | none => .ofSpec root spec {} := by
  unfold describe ManifestSource.found?
  cases manifests root with
  | error e => rfl
  | ok m? => cases m? <;> rfl

theorem describe_congr (h : m₁.found? root = m₂.found? root) :
    describe m₁ spec root = describe m₂ spec root := by
  rw [describe_eq, describe_eq, h]

theorem root_describe : (describe manifests spec root).root = root := by
  rw [describe_eq]
  cases manifests.found? root <;> rfl

theorem ofDescriptor_ofSpec (part : Part) (spec fallback : Spec) (root : Path) :
    part.ofDescriptor (.ofSpec root spec fallback) =
      (filled? (part.ofSpec spec)).or (filled? (part.ofSpec fallback)) := by
  cases part <;> exact Option.orElse_eq_or

theorem ofSpec_getD (part : Part) (block : Option Spec) :
    part.ofSpec (block.getD {}) = block.bind part.ofSpec := by
  cases block with
  | some s => rfl
  | none => cases part <;> rfl

/-- A text of an entry stands, and what is left open is taken from the manifest. -/
theorem ofDescriptor_describe (part : Part) :
    part.ofDescriptor (describe manifests spec root) =
      (filled? (part.ofSpec spec)).or ((manifests.found? root).bind part.ofManifest) := by
  rw [describe_eq]
  cases manifests.found? root with
  | none =>
    rw [ofDescriptor_ofSpec]
    cases part <;> rfl
  | some m =>
    have hblock := ofDescriptor_ofSpec part spec (m.overrides.getD {}) root
    rw [ofSpec_getD] at hblock
    change _ = (filled? (part.ofSpec spec)).or (part.ofManifest m)
    rw [Part.ofManifest, ← Option.or_assoc, ← hblock]
    cases part with
    | name => exact Option.orElse_eq_or
    | source => exact (Option.or_none).symm
    | output => exact (Option.or_none).symm
    | entry => exact (Option.or_none).symm
    | aliasToken => exact (Option.or_none).symm

def sitesOf (fs : FileSystem) (base : Path) (item : Item) :
    Except ConfigError (List (Spec × Path)) :=
  match filled? item.toSpec.root with
  | none => .error (.missingRoot item.toSpec.toJson)
  | some root => (expandRoot fs base root).map fun roots => roots.map fun r => (item.toSpec, r)

def sites (fs : FileSystem) (c : Config) : Except ConfigError (List (Spec × Path)) := do
  let base ← base fs c.root
  return (← c.packages.mapM (sitesOf fs base)).flatten

theorem describeItem_eq (base : Path) (item : Item) :
    describeItem fs manifests base item =
      (sitesOf fs base item).map (List.map fun s => describe manifests s.1 s.2) := by
  unfold describeItem sitesOf
  dsimp only
  cases filled? item.toSpec.root with
  | none => rfl
  | some root =>
    dsimp only
    cases expandRoot fs base root with
    | error e => rfl
    | ok roots =>
      refine congrArg Except.ok ?_
      rw [List.map_map]
      rfl

theorem isAbsolute_of_mem_sitesOf {base : Path} {item : Item} {ss : List (Spec × Path)}
    (hb : base.isAbsolute = true) (h : sitesOf fs base item = .ok ss) :
    ∀ s ∈ ss, s.2.isAbsolute = true := by
  unfold sitesOf at h
  cases hr : filled? item.toSpec.root with
  | none =>
    rw [hr] at h
    cases h
  | some root =>
    rw [hr] at h
    obtain ⟨roots, hroots, rfl⟩ := (map_eq_ok_iff _ _ _).mp h
    intro s hs
    obtain ⟨r, hmem, rfl⟩ := List.mem_map.mp hs
    exact (normal_of_mem_expandRoot hb hroots hmem).1

theorem isAbsolute_of_mem_sites {c : Config} {ss : List (Spec × Path)} (h : sites fs c = .ok ss) :
    ∀ s ∈ ss, s.2.isAbsolute = true := by
  obtain ⟨b, hb, h⟩ := (bind_eq_ok_iff _ _ _).mp h
  obtain ⟨sss, hsss, h⟩ := (bind_eq_ok_iff _ _ _).mp h
  cases h
  intro s hs
  obtain ⟨ss, hss, hs⟩ := List.mem_flatten.mp hs
  exact forall_mem_of_mapM_eq_ok (fun ss => ∀ s ∈ ss, s.2.isAbsolute = true) _ _ _ hsss
    (fun _ _ _ => isAbsolute_of_mem_sitesOf (isAbsolute_base hb)) ss hss s hs

/-- Where every root is absolute, none is missing. -/
theorem ofDescriptors_of_isAbsolute {ds : List Descriptor}
    (h : ∀ d ∈ ds, d.root.isAbsolute = true) :
    ofDescriptors ds = if ds = [] then .error .noPackages else .ok ⟨ds⟩ := by
  have hnone : ds.find? (·.root.isEmpty) = none := by
    rw [List.find?_eq_none]
    intro d hd he
    have ha := h d hd
    rw [(Path.isEmpty_iff _).mp he] at ha
    cases ha
  unfold ofDescriptors
  rw [hnone]
  cases ds <;> rfl

def describeAll (manifests : ManifestSource) (ss : List (Spec × Path)) : List Descriptor :=
  ss.map fun s => describe manifests s.1 s.2

theorem map_root_describeAll (ss : List (Spec × Path)) :
    (describeAll manifests ss).map (·.root) = ss.map (·.2) := by
  rw [describeAll, List.map_map]
  exact List.map_congr_left fun s _ => root_describe

/-- Manifests come last: they describe the packages that are there without them. -/
theorem build_eq_sites (fs : FileSystem) (manifests : ManifestSource) (c : Config) :
    build fs manifests c = sites fs c >>= fun ss => ofDescriptors (describeAll manifests ss) := by
  unfold build sites
  cases base fs c.root with
  | error e => rfl
  | ok b =>
    change (c.packages.mapM (describeItem fs manifests b) >>= fun ds => ofDescriptors ds.flatten) =
      (Except.bind (c.packages.mapM (sitesOf fs b)) _ >>= _)
    rw [show describeItem fs manifests b = fun item => (sitesOf fs b item).map _ from
      funext (describeItem_eq b), mapM_map_eq]
    cases c.packages.mapM (sitesOf fs b) with
    | error e => rfl
    | ok sss =>
      change ofDescriptors (sss.map (List.map _)).flatten = ofDescriptors (sss.flatten.map _)
      rw [List.map_flatten]

theorem build_of_sites {c : Config} {ss : List (Spec × Path)} (h : sites fs c = .ok ss) :
    build fs manifests c =
      if ss = [] then .error .noPackages else .ok ⟨describeAll manifests ss⟩ := by
  have habs : ∀ d ∈ describeAll manifests ss, d.root.isAbsolute = true := by
    intro d hd
    obtain ⟨s, hs, rfl⟩ := List.mem_map.mp hd
    rw [root_describe]
    exact isAbsolute_of_mem_sites h s hs
  have hnil : describeAll manifests ss = [] ↔ ss = [] := List.map_eq_nil_iff
  rw [build_eq_sites, h]
  change ofDescriptors (describeAll manifests ss) = _
  rw [ofDescriptors_of_isAbsolute habs]
  simp only [hnil]

/-- A descriptor says what the entry of its package says, and of all else what the manifest at its
root says, if anything. An empty text says nothing. -/
structure IsFilled (manifests : ManifestSource) (s : Spec × Path) (d : Descriptor) : Prop where
  root : d.root = s.2
  given : ∀ (part : Part) t, part.ofSpec s.1 = some t → t ≠ "" → part.ofDescriptor d = some t
  left : ∀ part : Part, filled? (part.ofSpec s.1) = none →
    part.ofDescriptor d = (manifests.found? s.2).bind part.ofManifest

theorem isFilled_describe : IsFilled manifests (spec, root) (describe manifests spec root) where
  root := root_describe
  given := by
    intro part t ht hne
    have hfilled : filled? (part.ofSpec spec) = some t := by simp [filled?, ht, hne]
    rw [ofDescriptor_describe, hfilled]
    rfl
  left := by
    intro part hnone
    rw [ofDescriptor_describe, hnone]
    rfl

theorem forall₂_isFilled (ss : List (Spec × Path)) :
    List.Forall₂ (IsFilled manifests) ss (describeAll manifests ss) := by
  rw [describeAll, List.forall₂_map_right_iff, List.forall₂_same]
  exact fun s _ => isFilled_describe

/-- Whether a manifest is missing or cannot be read makes no difference. -/
theorem build_congr (h : ∀ root, m₁.found? root = m₂.found? root) (fs : FileSystem) (c : Config) :
    build fs m₁ c = build fs m₂ c := by
  have hall (ss : List (Spec × Path)) : describeAll m₁ ss = describeAll m₂ ss :=
    List.map_congr_left fun s _ => describe_congr (h s.2)
  rw [build_eq_sites, build_eq_sites]
  simp only [hall]

/-- From two sources of manifests a registry is built with the same error, or with the same roots in
the same order. What an entry gives is the same in both, and all else is what the manifests have for
it. A source that fails is as good as one that finds nothing. -/
theorem manifests_fill_gaps (fs : FileSystem) (c : Config) (m₁ m₂ : ManifestSource) :
    ((∃ e, build fs m₁ c = .error e ∧ build fs m₂ c = .error e) ∨
      ∃ ss r₁ r₂, sites fs c = .ok ss ∧ build fs m₁ c = .ok r₁ ∧ build fs m₂ c = .ok r₂ ∧
        r₁.packages.length = r₂.packages.length ∧
        r₁.packages.map (·.root) = r₂.packages.map (·.root) ∧
        List.Forall₂ (IsFilled m₁) ss r₁.packages ∧ List.Forall₂ (IsFilled m₂) ss r₂.packages) ∧
    ((∀ root, m₁ root = m₂ root ∨ (∃ e, m₁ root = .error e) ∧ m₂ root = .ok none) →
      build fs m₁ c = build fs m₂ c) := by
  constructor
  · cases hs : sites fs c with
    | error e =>
      refine Or.inl ⟨e, ?_, ?_⟩ <;> rw [build_eq_sites, hs] <;> rfl
    | ok ss =>
      by_cases hnil : ss = []
      · exact Or.inl ⟨.noPackages, by rw [build_of_sites hs, if_pos hnil],
          by rw [build_of_sites hs, if_pos hnil]⟩
      · refine Or.inr ⟨ss, ⟨describeAll m₁ ss⟩, ⟨describeAll m₂ ss⟩, rfl, ?_, ?_, ?_, ?_,
          forall₂_isFilled ss, forall₂_isFilled ss⟩
        · rw [build_of_sites hs, if_neg hnil]
        · rw [build_of_sites hs, if_neg hnil]
        · simp [describeAll]
        · rw [map_root_describeAll, map_root_describeAll]
  · intro h
    refine build_congr (fun root => ?_) fs c
    obtain h | ⟨⟨e, he⟩, hnone⟩ := h root
    · rw [ManifestSource.found?, h, ManifestSource.found?]
    · rw [ManifestSource.found?, he, ManifestSource.found?, hnone]

def pair : Config where
  root := some (.ofString "/w")
  packages := [.spec { root := some "a", name := some "x", source := some "" }, .root "b"]

def describedPair : ManifestSource := fun root =>
  if root = .ofString "/w/a" then
    .ok (some { name := some "n", overrides := some { name := some "y", source := some "lib" } })
  else if root = .ofString "/w/b" then
    .ok (some { name := some "b", overrides := some { name := some "" } })
  else .ok none

def unreadable : ManifestSource := fun root => .error (.read root .isADirectory)

def pairRegistry : Registry :=
  ⟨[{ name := some "x", root := .ofString "/w/a", source := some "lib" },
    { name := some "b", root := .ofString "/w/b" }]⟩

theorem manifests_fill_gaps_pair :
    build .blank describedPair pair = .ok pairRegistry ∧
    (∃ ss, sites .blank pair = .ok ss ∧
      List.Forall₂ (IsFilled describedPair) ss pairRegistry.packages) ∧
    build .blank unreadable pair = build .blank .none pair := by
  have hbuild : build .blank describedPair pair = .ok pairRegistry := by cbv
  refine ⟨hbuild, ?_, (manifests_fill_gaps .blank pair unreadable .none).2 fun root =>
    Or.inr ⟨⟨_, rfl⟩, rfl⟩⟩
  obtain ⟨e, he, -⟩ | ⟨ss, r₁, r₂, hs, h₁, -, -, -, hfilled, -⟩ :=
    (manifests_fill_gaps .blank pair describedPair .none).1
  · rw [hbuild] at he
    cases he
  · rw [hbuild] at h₁
    cases h₁
    exact ⟨ss, hs, hfilled⟩

end Registry
end Monorepo
