import Monorepo.Proofs.FileSystem.Missing
import Monorepo.Proofs.Registry
import Monorepo.Proofs.Resolver.Questions

/-! Specifiers that no path can have. A specifier of another package is looked for on the disk, and
where a disk does not say whether there is something at its path, it is an error. -/
namespace Monorepo
open FileSystem

theorem FileSystem.not_runsOutOfLinks {fs : FileSystem} (h : ∀ e ∈ fs.entries, ∀ t, e.2 ≠ .link t)
    (p : Path) : ¬ fs.RunsOutOfLinks p := by
  rintro ⟨l, s, rest, t, -, -, -, he⟩
  rw [FileSystem.entry?, if_neg (List.concat_ne_nil s l)] at he
  obtain ⟨as, bs, hentries, -⟩ := List.lookup_eq_some_iff.mp he
  exact h (l ++ [s], .link t) (hentries ▸ by simp) t rfl

namespace Resolver
variable {fs there : FileSystem} {manifests : ManifestSource} {c : Config} {registry : Registry}
  {origin real : Path}

theorem isAbsolute_root_of_build (hbuild : Registry.build there manifests c = .ok registry)
    (s : Settings) (probe : Probe) :
    ∀ p ∈ (ofRegistry s registry probe).packages, p.root.isAbsolute = true := by
  intro p hp
  obtain ⟨d, hd, rfl⟩ := List.mem_map.mp hp
  exact ((Registry.build_sound hbuild).2 d hd).isAbsolute

/-- Whose file is known, a specifier fails just if the disk withholds whether there is something at
the path that it is asked about: for a zero character, for the length of the path or of a name that
is met on the way, or for too many links. Where links never are too many, all other specifiers have
an answer. -/
theorem fails_iff_withheld (hbuild : Registry.build there manifests c = .ok registry) (s : Settings)
    (hreal : (ofRegistry s registry (.ofFileSystem fs)).realFile origin = .ok real)
    (target : String)
    (relative : Bool) :
    let r := ofRegistry s registry (.ofFileSystem fs)
    (∀ e, r.resolve target origin relative = .error e ↔
      r.Asks target real e.path ∧ fs.Withholds e.path e.fault) ∧
    ((∀ p, ¬ fs.RunsOutOfLinks p) →
      ((∃ answer, r.resolve target origin relative = .ok answer) ↔
        ∀ path, r.Asks target real path → ¬ IsRefused path ∧ ¬ fs.MeetsLongName path)) := by
  intro r
  have hne {path : Path} (h : r.Asks target real path) : path.isEmpty = false :=
    Path.isEmpty_of_isAbsolute path (h.isAbsolute (isAbsolute_root_of_build hbuild s _))
  have herror (e : ResolveError) : r.resolve target origin relative = .error e ↔
      r.Asks target real e.path ∧ fs.Withholds e.path e.fault := by
    rw [resolve_eq_error_iff hreal]
    exact and_congr_right fun h => present_eq_error_iff (hne h)
  refine ⟨herror, fun hlinks => ?_⟩
  have hwithheld (path : Path) :
      (∃ f, fs.Withholds path f) ↔ IsRefused path ∨ fs.MeetsLongName path := by
    rw [exists_withholds_iff, or_iff_left (hlinks path)]
  simp only [← not_or, ← hwithheld, not_exists]
  constructor
  · rintro ⟨answer, h⟩ path hasks f hf
    have hfails := (herror ⟨path, f⟩).mpr ⟨hasks, hf⟩
    rw [h] at hfails
    cases hfails
  · intro h
    cases hr : r.resolve target origin relative with
    | ok answer => exact ⟨answer, rfl⟩
    | error e =>
      obtain ⟨hasks, hf⟩ := (herror e).mp hr
      exact absurd hf (h e.path hasks e.fault)

def shelf : FileSystem where
  entries := [(.ofNames ["r"], .directory), (.ofNames ["r", "b"], .directory),
    (.ofNames ["r", "b", "f"], .file [])]
  standpoint := { location := [] }

def shelfConfig : Config where
  root := some (.ofString "/r")
  packages := [.spec { root := some "b", name := some "b" }]

def shelfRegistry : Registry := ⟨[{ name := some "b", root := .ofString "/r/b" }]⟩

def shelved : Resolver :=
  ofRegistry { resolvePackages := false } shelfRegistry (.ofFileSystem shelf)

theorem shelved_realFile : shelved.realFile (.ofString "/r/f.js") = .ok (.ofString "/r/f.js") := by
  cbv

theorem shelved_asks_iff {target : String} {rest : List Char} {path : Path}
    (hs : shelved.specifierAt target (.ofString "/r/f.js") = .module)
    (hn : shelved.packageNamed? target.toList = some (shelved.packages[0], 0, rest)) :
    shelved.Asks target (.ofString "/r/f.js") path ↔
      path = directCandidate shelved.packages[0] (trimSlashes rest) := by
  refine asks_iff_of_named hs hn ?_
  rw [show shelved.packageOf? (.ofString "/r/f.js") = none by decide]
  simp

theorem fails_iff_withheld_shelved :
    Registry.build shelf .none shelfConfig = .ok shelfRegistry ∧
    shelved.realFile (.ofString "/r/f.js") = .ok (.ofString "/r/f.js") ∧
    (∀ p, ¬ shelf.RunsOutOfLinks p) ∧
    shelved.resolve "b/x\x00" (.ofString "/r/f.js") true =
      .error ⟨.ofString "/r/b/x\x00", .nulInPath⟩ ∧
    ∃ answer, shelved.resolve "b/f/x" (.ofString "/r/f.js") true = .ok answer := by
  have hbuild : Registry.build shelf .none shelfConfig = .ok shelfRegistry := by cbv
  have hlinks : ∀ p, ¬ shelf.RunsOutOfLinks p := not_runsOutOfLinks (by simp [shelf])
  have hzero : shelved.packageNamed? "b/x\x00".toList =
      some (shelved.packages[0], 0, "/x\x00".toList) := by decide
  have hbelow : shelved.packageNamed? "b/f/x".toList =
      some (shelved.packages[0], 0, "/f/x".toList) := by decide
  have hall (target : String) := @fails_iff_withheld shelf shelf .none shelfConfig shelfRegistry _ _
    hbuild { resolvePackages := false } shelved_realFile target true
  refine ⟨hbuild, shelved_realFile, hlinks,
    ((hall _).1 _).mpr ⟨(shelved_asks_iff rfl hzero).mpr ?_, ?_⟩,
    ((hall _).2 hlinks).mpr fun path hasks => ?_⟩
  · decide
  · exact .zeroCharacter (by decide)
  · obtain rfl : path = .ofString "/r/b/f/x" :=
      ((shelved_asks_iff rfl hbelow).mp hasks).trans (by decide)
    have hpresent : shelf.present (.ofString "/r/b/f/x") = .ok false := by cbv
    have hanswered := not_or.mp (not_withheld_of_present rfl hpresent)
    exact ⟨hanswered.1, (not_or.mp hanswered.2).1⟩

/-- On a disk without links a specifier with a zero character is an error. -/
theorem malformed_specifier_refused :
    Registry.build shelf .none shelfConfig = .ok shelfRegistry ∧
    shelved = ofRegistry { resolvePackages := false } shelfRegistry (.ofFileSystem shelf) ∧
    (∀ p, ¬ shelf.RunsOutOfLinks p) ∧
    shelved.realFile (.ofString "/r/f.js") = .ok (.ofString "/r/f.js") ∧
    shelved.resolve "b/x\x00" (.ofString "/r/f.js") true =
      .error ⟨.ofString "/r/b/x\x00", .nulInPath⟩ :=
  ⟨by cbv, rfl, not_runsOutOfLinks (by simp [shelf]), shelved_realFile, by cbv⟩

end Resolver
end Monorepo
