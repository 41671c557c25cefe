import Mathlib.Data.List.Basic
import Monorepo.Proofs.Resolver.Destination

/-! What the mode decides. It is looked at only where a module specifier leads into another package,
and only if that package has a build output; what is not looked at can be left out of the packages
without changing an answer. -/
namespace Monorepo

def Settings.inMode (s : Settings) (mode : Mode) : Settings := { s with mode }

namespace Descriptor

def withoutSources (d : Descriptor) : Descriptor := { d with source := none, entry := none }

def withoutOutput (d : Descriptor) : Descriptor := { d with output := none }

end Descriptor

namespace Package

def withoutSources (p : Package) : Package := { p with source := "", entry := "" }

def withoutOutput (p : Package) : Package := { p with output := none }

/-- Nothing that look-ups go by is changed. -/
structure KeepsTags (f : Package → Package) : Prop where
  name : ∀ p, (f p).name = p.name
  root : ∀ p, (f p).root = p.root
  aliasToken : ∀ p, (f p).aliasToken = p.aliasToken

theorem keepsTags_withoutSources : KeepsTags withoutSources :=
  ⟨fun _ => rfl, fun _ => rfl, fun _ => rfl⟩

theorem keepsTags_withoutOutput : KeepsTags withoutOutput :=
  ⟨fun _ => rfl, fun _ => rfl, fun _ => rfl⟩

theorem outputOr_of_none (p : Package) (mode : Mode) (otherwise : String) (h : p.output = none) :
    p.outputOr mode otherwise = p.root.join (.ofString otherwise) := by
  cases mode <;> simp [outputOr, h]

theorem outputOr_production (p : Package) (output otherwise : String) (h : p.output = some output) :
    p.outputOr .production otherwise = p.root.join (.ofString output) := by
  simp [outputOr, h]

end Package

def Specifier.mapPackage (f : Package → Package) : Specifier → Specifier
  | relative => relative
  | aliased p rest => aliased (f p) rest
  | ownName p rest => ownName (f p) rest
  | module => module

theorem Specifier.classify_map {f : Package → Package} (hf : Package.KeepsTags f) (s : Settings)
    (o : Option Package) (target : String) :
    classify s (o.map f) target = (classify s o target).mapPackage f := by
  unfold classify
  by_cases hr : isRelative target = true
  · rw [if_pos hr, if_pos hr]
    rfl
  · rw [if_neg hr, if_neg hr]
    cases o with
    | none => rfl
    | some p =>
      rw [Option.map_some]
      dsimp only
      rw [hf.name, hf.aliasToken]
      cases stripToken? target.toList p.aliasToken.toList with
      | some rest =>
        dsimp only
        split_ifs <;> rfl
      | none =>
        cases stripToken? target.toList (p.name.getD "").toList with
        | some rest =>
          dsimp only
          split_ifs <;> rfl
        | none => rfl

namespace Resolver

def mapPackages (r : Resolver) (f : Package → Package) : Resolver :=
  { r with packages := r.packages.map f }

variable {f : Package → Package} (r : Resolver)

theorem realFile_mapPackages (origin : Path) :
    (r.mapPackages f).realFile origin = r.realFile origin := by
  rw [realFile_eq, realFile_eq]
  rfl

theorem packageOf?_mapPackages (hf : Package.KeepsTags f) (path : Path) :
    (r.mapPackages f).packageOf? path = (r.packageOf? path).map fun (p, n) => (f p, n) := by
  rw [packageOf?, mapPackages, List.zipIdx_map, List.find?_map, packageOf?]
  simp only [Function.comp_def, Prod.map_fst, hf.root]
  rfl

theorem packageNamed?_mapPackages (hf : Package.KeepsTags f) (target : List Char) :
    (r.mapPackages f).packageNamed? target =
      (r.packageNamed? target).map fun (p, n, rest) => (f p, n, rest) := by
  rw [packageNamed?, mapPackages, List.zipIdx_map, List.findSome?_map, packageNamed?,
    List.map_findSome?]
  congr 1
  funext x
  simp [hf.name, Option.map_map, Function.comp_def]

theorem specifierAt_mapPackages (hf : Package.KeepsTags f) (target : String) (real : Path) :
    (r.mapPackages f).specifierAt target real = (r.specifierAt target real).mapPackage f := by
  rw [specifierAt, specifierAt, packageOf?_mapPackages r hf, ← Specifier.classify_map hf,
    Option.map_map, Option.map_map]
  rfl

theorem any_slot_map (o? : Option (Package × Nat)) (n : Nat) :
    (o?.map fun (p, n) => (f p, n)).any (·.2 == n) = o?.any (·.2 == n) := by
  cases o? <;> rfl

/-- A change that the package of a module specifier does not show leaves its path as it is. -/
theorem modulePath?_mapPackages (hf : Package.KeepsTags f) (real : Path) (target : List Char)
    (h : ∀ p n rest isThere, r.packageNamed? target = some (p, n, rest) →
      (r.mapPackages f).packagePath? (f p) (trimSlashes rest) isThere =
        r.packagePath? p (trimSlashes rest) isThere) :
    (r.mapPackages f).modulePath? ((r.mapPackages f).packageOf? real) target =
      r.modulePath? (r.packageOf? real) target := by
  unfold modulePath?
  rw [packageNamed?_mapPackages r hf, packageOf?_mapPackages r hf]
  cases hn : r.packageNamed? target with
  | none => rfl
  | some x =>
    obtain ⟨p, n, rest⟩ := x
    have hd : directCandidate (f p) (trimSlashes rest) = directCandidate p (trimSlashes rest) := by
      rw [directCandidate, directCandidate, hf.root]
    rw [Option.map_some]
    dsimp only
    rw [any_slot_map, hd]
    simp only [h p n rest _ hn]
    rfl

/-- In development nobody sees the build output. -/
theorem resolve_withoutOutput (hm : r.settings.mode = .development) (target : String)
    (origin : Path) (relative : Bool) :
    (r.mapPackages Package.withoutOutput).resolve target origin relative =
      r.resolve target origin relative := by
  have hf := Package.keepsTags_withoutOutput
  refine resolve_congr (realFile_mapPackages r origin) ?_
  intro real _
  unfold destination?
  rw [specifierAt_mapPackages r hf]
  cases r.specifierAt target real with
  | relative => rfl
  | aliased p rest => rfl
  | ownName p rest => rfl
  | module =>
    refine modulePath?_mapPackages r hf real target.toList ?_
    intro p n rest isThere _
    simp only [packagePath?, mapPackages, hm]
    rfl

def LeadsToOutput (target : String) (real : Path) : Prop :=
  r.specifierAt target real = .module ∧
    ∃ p n rest, r.packageNamed? target.toList = some (p, n, rest) ∧ p.output ≠ none

theorem leadsToOutput_withoutSources (target : String) (real : Path) :
    (r.mapPackages Package.withoutSources).LeadsToOutput target real ↔
      r.LeadsToOutput target real := by
  have hf := Package.keepsTags_withoutSources
  have hs : (r.specifierAt target real).mapPackage Package.withoutSources = .module ↔
      r.specifierAt target real = .module := by
    cases r.specifierAt target real <;> simp [Specifier.mapPackage]
  unfold LeadsToOutput
  rw [specifierAt_mapPackages r hf, hs, packageNamed?_mapPackages r hf]
  refine and_congr_right fun _ => ?_
  cases r.packageNamed? target.toList with
  | none => simp
  | some x =>
    obtain ⟨p, n, rest⟩ := x
    simp [Package.withoutSources]

/-- In production nobody sees the sources of a package that has a build output. -/
theorem resolve_withoutSources (hm : r.settings.mode = .production) (target : String)
    (origin : Path) (relative : Bool)
    (h : ∀ real, r.realFile origin = .ok real → r.LeadsToOutput target real) :
    (r.mapPackages Package.withoutSources).resolve target origin relative =
      r.resolve target origin relative := by
  have hf := Package.keepsTags_withoutSources
  refine resolve_congr (realFile_mapPackages r origin) ?_
  intro real hreal
  rw [realFile_mapPackages] at hreal
  obtain ⟨hs, p, n, rest, hn, ho⟩ := h real hreal
  obtain ⟨output, ho⟩ := Option.ne_none_iff_exists'.mp ho
  unfold destination?
  rw [specifierAt_mapPackages r hf, hs]
  refine modulePath?_mapPackages r hf real target.toList ?_
  intro q m rest' isThere hq
  rw [hn] at hq
  cases hq
  simp only [packagePath?, mapPackages, hm, Package.entryDir, Package.packageDir,
    Package.outputOr_production p output _ ho,
    Package.outputOr_production p.withoutSources output _ ho]
  rfl

def inMode (mode : Mode) : Resolver := { r with settings := r.settings.inMode mode }

/-- The mode has a say in where `target` leads: into another package with a build output, either to
its entry or to a path that has to be looked for in one of its directories. -/
def ModeDecides (target : String) (real : Path) : Prop :=
  r.specifierAt target real = .module ∧
  ∃ p n rest, r.packageNamed? target.toList = some (p, n, rest) ∧
    (¬ ∃ o, r.packageOf? real = some (o, n)) ∧ p.output ≠ none ∧
    ((trimSlashes rest = [] ∧ r.settings.resolveEntries = true) ∨
      (r.probe.present (directCandidate p (trimSlashes rest)) = .ok false ∧
        r.settings.resolvePackages = true))

theorem packagePath?_inMode (mode : Mode) (p : Package) (rest : List Char) (isThere : Bool)
    (h : p.output = none ∨ (¬ (r.settings.resolveEntries = true ∧ rest = []) ∧
      (isThere = false → r.settings.resolvePackages = false))) :
    (r.inMode mode).packagePath? p rest isThere = r.packagePath? p rest isThere := by
  obtain ho | ⟨he, hp⟩ := h
  · simp only [packagePath?, inMode, Settings.inMode, Package.entryDir, Package.packageDir,
      Package.outputOr_of_none p _ _ ho]
  · cases isThere with
    | true => simp [packagePath?, inMode, Settings.inMode, he]
    | false => simp [packagePath?, inMode, Settings.inMode, he, hp rfl]

theorem modulePath?_inMode (mode : Mode) (target : String) (real : Path)
    (hs : r.specifierAt target real = .module) (h : ¬ r.ModeDecides target real) :
    (r.inMode mode).modulePath? (r.packageOf? real) target.toList =
      r.modulePath? (r.packageOf? real) target.toList := by
  have hnamed : (r.inMode mode).packageNamed? target.toList = r.packageNamed? target.toList := rfl
  have hprobe : (r.inMode mode).probe = r.probe := rfl
  unfold modulePath?
  rw [hnamed, hprobe]
  cases hn : r.packageNamed? target.toList with
  | none => rfl
  | some x =>
    obtain ⟨p, n, rest⟩ := x
    dsimp only
    by_cases ho : (r.packageOf? real).any (·.2 == n) = true
    · rw [if_pos ho, if_pos ho]
    · rw [if_neg ho, if_neg ho]
      cases hp : r.probe.present (directCandidate p (trimSlashes rest)) with
      | error e => rfl
      | ok isThere =>
        refine congrArg Except.ok (r.packagePath?_inMode mode p _ isThere ?_)
        by_contra hc
        simp only [not_or, not_and_or, not_not, Classical.not_imp] at hc
        refine h ⟨hs, p, n, rest, hn, mt (any_slot_eq_true_iff _ n).mpr ho, hc.1, ?_⟩
        obtain he | ⟨rfl, hr⟩ := hc.2
        · exact Or.inl ⟨he.2, he.1⟩
        · exact Or.inr ⟨hp, by simpa using hr⟩

/-- Either the mode decides, or the answer is the same in each. -/
theorem resolve_inMode (mode : Mode) (target : String) (origin : Path) (relative : Bool) :
    (r.inMode mode).resolve target origin relative = r.resolve target origin relative ∨
      ∃ real, r.realFile origin = .ok real ∧ r.ModeDecides target real := by
  by_cases h : ∃ real, r.realFile origin = .ok real ∧ r.ModeDecides target real
  · exact Or.inr h
  · left
    refine resolve_congr (s := r) rfl ?_
    intro real hreal
    have hspec : (r.inMode mode).specifierAt target real = r.specifierAt target real := rfl
    unfold destination?
    rw [hspec]
    cases hs : r.specifierAt target real with
    | relative => rfl
    | aliased p rest => rfl
    | ownName p rest => rfl
    | module => exact r.modulePath?_inMode mode target real hs fun hd => h ⟨real, hreal, hd⟩

/-- What is left out of the packages in the end may as well be left out of their descriptors. -/
theorem mapPackages_ofRegistry {f : Package → Package} {g : Descriptor → Descriptor}
    (settings : Settings) (probe : Probe)
    (hfg : ∀ d, f (d.complete settings) = f ((g d).complete settings)) {a b : Registry}
    (h : a.packages.map g = b.packages.map g) :
    (ofRegistry settings a probe).mapPackages f = (ofRegistry settings b probe).mapPackages f := by
  have hc (c : Registry) : (c.packages.map (·.complete settings)).map f =
      ((c.packages.map g).map (·.complete settings)).map f := by
    simp only [List.map_map, List.map_inj_left, Function.comp_apply]
    exact fun d _ => hfg d
  have hab : (a.packages.map (·.complete settings)).map f =
      (b.packages.map (·.complete settings)).map f := by rw [hc a, hc b, h]
  exact congrArg (Resolver.mk settings · probe) hab

/-- Only where a module specifier leads into another package with a build output can the mode be
seen. In production the sources of such a package are not looked at, and in development no build
output is. -/
theorem mode_reaches_other_packages (settings : Settings) (a b : Registry) (probe : Probe)
    (target : String) (origin : Path) (relative : Bool) :
    (∀ m m', (ofRegistry (settings.inMode m) a probe).resolve target origin relative =
        (ofRegistry (settings.inMode m') a probe).resolve target origin relative ∨
      ∃ real, (ofRegistry (settings.inMode m) a probe).realFile origin = .ok real ∧
        (ofRegistry (settings.inMode m) a probe).ModeDecides target real) ∧
    (a.packages.map Descriptor.withoutSources = b.packages.map Descriptor.withoutSources →
      (∀ real, (ofRegistry (settings.inMode .production) a probe).realFile origin = .ok real →
        (ofRegistry (settings.inMode .production) a probe).LeadsToOutput target real) →
      (ofRegistry (settings.inMode .production) a probe).resolve target origin relative =
        (ofRegistry (settings.inMode .production) b probe).resolve target origin relative) ∧
    (a.packages.map Descriptor.withoutOutput = b.packages.map Descriptor.withoutOutput →
      (ofRegistry (settings.inMode .development) a probe).resolve target origin relative =
        (ofRegistry (settings.inMode .development) b probe).resolve target origin relative) := by
  refine ⟨?_, ?_, ?_⟩
  · intro m m'
    obtain h | h :=
      (ofRegistry (settings.inMode m) a probe).resolve_inMode m' target origin relative
    · exact Or.inl h.symm
    · exact Or.inr h
  · intro hab h
    have he := mapPackages_ofRegistry (f := Package.withoutSources)
      (g := Descriptor.withoutSources) (settings.inMode .production) probe (fun _ => rfl) hab
    have hb : ∀ real,
        (ofRegistry (settings.inMode .production) b probe).realFile origin = .ok real →
        (ofRegistry (settings.inMode .production) b probe).LeadsToOutput target real := by
      intro real hreal
      rw [← leadsToOutput_withoutSources, ← he, leadsToOutput_withoutSources]
      exact h real hreal
    rw [← resolve_withoutSources _ rfl _ _ _ h, he, resolve_withoutSources _ rfl _ _ _ hb]
  · intro hab
    have he := mapPackages_ofRegistry (f := Package.withoutOutput)
      (g := Descriptor.withoutOutput) (settings.inMode .development) probe (fun _ => rfl) hab
    rw [← resolve_withoutOutput _ rfl, he, resolve_withoutOutput _ rfl]

def builtLibrary (source : String) (output : Option String) : Registry :=
  ⟨[{ name := some "app", root := .ofString "/r/app" },
    { name := some "lib", root := .ofString "/r/lib", source := some source, output }]⟩

def onEmptyDisk (mode : Mode) (registry : Registry) : Resolver :=
  ofRegistry (Settings.inMode {} mode) registry ⟨fun _ => .ok none, fun _ => .ok false⟩

theorem mode_reaches_builtLibrary :
    ((onEmptyDisk .development (builtLibrary "src" (some "dist"))).resolve "lib/x"
          (.ofString "/r/app/f.js") true =
        (onEmptyDisk .production (builtLibrary "src" (some "dist"))).resolve "lib/x"
          (.ofString "/r/app/f.js") true ∨
      ∃ real, (onEmptyDisk .development (builtLibrary "src" (some "dist"))).realFile
          (.ofString "/r/app/f.js") = .ok real ∧
        (onEmptyDisk .development (builtLibrary "src" (some "dist"))).ModeDecides "lib/x" real) ∧
    (onEmptyDisk .production (builtLibrary "src" (some "dist"))).resolve "lib/x"
        (.ofString "/r/app/f.js") true =
      (onEmptyDisk .production (builtLibrary "lib" (some "dist"))).resolve "lib/x"
        (.ofString "/r/app/f.js") true ∧
    (onEmptyDisk .development (builtLibrary "src" (some "dist"))).resolve "lib/x"
        (.ofString "/r/app/f.js") true =
      (onEmptyDisk .development (builtLibrary "src" none)).resolve "lib/x"
        (.ofString "/r/app/f.js") true := by
  have hmode := (mode_reaches_other_packages {} (builtLibrary "src" (some "dist"))
    (builtLibrary "src" none) ⟨fun _ => .ok none, fun _ => .ok false⟩ "lib/x"
    (.ofString "/r/app/f.js") true).1 .development .production
  have hsources := (mode_reaches_other_packages {} (builtLibrary "src" (some "dist"))
    (builtLibrary "lib" (some "dist")) ⟨fun _ => .ok none, fun _ => .ok false⟩ "lib/x"
    (.ofString "/r/app/f.js") true).2.1 (by decide)
  have houtput := (mode_reaches_other_packages {} (builtLibrary "src" (some "dist"))
    (builtLibrary "src" none) ⟨fun _ => .ok none, fun _ => .ok false⟩ "lib/x"
    (.ofString "/r/app/f.js") true).2.2 (by decide)
  refine ⟨hmode, hsources ?_, houtput⟩
  intro real hreal
  cases hreal
  exact ⟨rfl, _, _, _, rfl, by decide⟩

example : (onEmptyDisk .production (builtLibrary "src" (some "dist"))).resolve "lib/x"
    (.ofString "/r/app/f.js") true = .ok "../lib/dist/x" := by decide

end Resolver
end Monorepo
