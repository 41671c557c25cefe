import Mathlib
import Monorepo.Project
import Monorepo.Proofs.FileSystem.Walk
import Monorepo.Proofs.Registry
import Monorepo.Proofs.Resolver.Warning

/-! Where the resolver of a project comes from. However a configuration was come by, it was settled
last, so every package of the resolver has all that a resolution asks of it. -/
namespace Monorepo.Project
variable {fs : FileSystem} {env : Environment} {p : Project}

def IsSettled (p : Project) : Prop := ∃ env path root c, p = settle env path root c

theorem isSettled_findInFiles {dir : Path} {names : List String}
    (h : findInFiles fs env dir names = .ok (some p)) : p.IsSettled := by
  induction names with
  | nil => cases h
  | cons name names ih =>
    obtain ⟨text?, -, h⟩ := (bind_eq_ok_iff _ _ _).mp h
    cases text? with
    | none => exact ih h
    | some text =>
      obtain ⟨v, -, h⟩ := (bind_eq_ok_iff _ _ _).mp h
      obtain ⟨c?, -, h⟩ := (bind_eq_ok_iff _ _ _).mp h
      cases c? with
      | none => exact ih h
      | some c =>
        cases h
        exact ⟨_, _, _, _, rfl⟩

theorem isSettled_findIn {dir : Path} (h : findIn fs env dir = .ok (some p)) : p.IsSettled := by
  obtain ⟨text?, -, h⟩ := (bind_eq_ok_iff _ _ _).mp h
  cases text? with
  | none => exact isSettled_findInFiles h
  | some text =>
    obtain ⟨c, -, h⟩ := (bind_eq_ok_iff _ _ _).mp h
    cases h
    exact ⟨_, _, _, _, rfl⟩

theorem isSettled_load {path : Path} (h : load fs env path = .ok p) : p.IsSettled := by
  obtain ⟨path, -, h⟩ := (bind_eq_ok_iff _ _ _).mp h
  obtain ⟨text, -, h⟩ := (bind_eq_ok_iff _ _ _).mp h
  obtain ⟨c, -, h⟩ := (bind_eq_ok_iff _ _ _).mp h
  cases h
  exact ⟨_, _, _, _, rfl⟩

theorem isSettled_findUpwards {n : Nat} {dir : Path} (h : findUpwards fs env n dir = .ok (some p)) :
    p.IsSettled := by
  induction n generalizing dir with
  | zero => cases h
  | succ n ih =>
    obtain ⟨found, hfound, h⟩ := (bind_eq_ok_iff _ _ _).mp h
    cases found with
    | some project =>
      cases h
      exact isSettled_findIn hfound
    | none =>
      cases hp : dir.parent? with
      | none =>
        rw [hp] at h
        cases h
      | some parent =>
        rw [hp] at h
        exact ih h

def findElsewhere (fs : FileSystem) (env : Environment) (start : Path) :
    Except ConfigError Project :=
  match env.config with
  | some path => load fs env path
  | none => do
    let start ← absolute fs start
    match ← findUpwards fs env searchLimit start with
    | some project => return project
    | none => throw (.notFound start)

theorem find_eq (fs : FileSystem) (env : Environment) (start : Path) :
    find fs env start = match env.root with
      | none => findElsewhere fs env start
      | some root => findIn fs env root >>= fun
        | some project => .ok project
        | none => findElsewhere fs env start := by
  unfold find findElsewhere
  cases env.root with
  | none => cases env.config <;> rfl
  | some root =>
    refine congrArg (findIn fs env root >>= ·) (funext fun found => ?_)
    cases found <;> cases env.config <;> rfl

theorem isSettled_findElsewhere {start : Path} (h : findElsewhere fs env start = .ok p) :
    p.IsSettled := by
  unfold findElsewhere at h
  cases hc : env.config with
  | some path =>
    rw [hc] at h
    exact isSettled_load h
  | none =>
    rw [hc] at h
    obtain ⟨dir, -, h⟩ := (bind_eq_ok_iff _ _ _).mp h
    obtain ⟨found, hfound, h⟩ := (bind_eq_ok_iff _ _ _).mp h
    cases found with
    | none => cases h
    | some project =>
      cases h
      exact isSettled_findUpwards hfound

theorem isSettled_find {start : Path} (h : find fs env start = .ok p) : p.IsSettled := by
  rw [find_eq] at h
  cases hr : env.root with
  | none =>
    rw [hr] at h
    exact isSettled_findElsewhere h
  | some root =>
    rw [hr] at h
    obtain ⟨found, hfound, h⟩ := (bind_eq_ok_iff _ _ _).mp h
    cases found with
    | none => exact isSettled_findElsewhere h
    | some project =>
      cases h
      exact isSettled_findIn hfound

def IsObtained (p : Project) : Prop :=
  ∃ fs env, (∃ start, find fs env start = .ok p) ∨ (∃ dir, findIn fs env dir = .ok (some p)) ∨
    ∃ path, load fs env path = .ok p

theorem IsObtained.isSettled (h : p.IsObtained) : p.IsSettled := by
  obtain ⟨fs, env, ⟨_, h⟩ | ⟨_, h⟩ | ⟨_, h⟩⟩ := h
  · exact isSettled_find h
  · exact isSettled_findIn h
  · exact isSettled_load h

/-- The settings of a settled configuration name every directory of a package but its entry. -/
theorem IsSettled.isSound_settings {s : Settings} (hp : p.IsSettled) (h : p.settings = .ok s) :
    s.IsSound := by
  obtain ⟨env, path, root, c, rfl⟩ := hp
  refine Config.isSound_settings h ?_
  change filled? (some ((filled? c.output).getD Settings.projectOutput)) ≠ none
  rw [filled?_getD c.output (by decide)]
  exact Option.some_ne_none _

theorem resolver_eq_ok {r : Resolver} (h : p.resolver fs = .ok r) :
    ∃ settings registry, p.settings = .ok settings ∧
      Registry.build fs (.ofFileSystem fs) p.config = .ok registry ∧
      r = .ofRegistry settings registry (.ofFileSystem fs) := by
  obtain ⟨settings, hs, h⟩ := (bind_eq_ok_iff _ _ _).mp h
  obtain ⟨registry, hr, h⟩ := (bind_eq_ok_iff _ _ _).mp h
  cases h
  exact ⟨settings, registry, hs, hr, rfl⟩

theorem isSound_of_mem_resolver {r : Resolver} (hp : p.IsSettled) (h : p.resolver fs = .ok r) :
    ∀ q ∈ r.packages, q.IsSound := by
  intro q hq
  obtain ⟨settings, registry, hs, hr, rfl⟩ := resolver_eq_ok h
  obtain ⟨d, hd, rfl⟩ := List.mem_map.mp hq
  exact ((Registry.build_sound hr).2 d hd).complete (hp.isSound_settings hs)

/-- The packages of a registry are sound as far as they are described, and those of a resolver in
every respect. Manifests and the disk may say what they like, and the disk may have changed
since. -/
theorem packages_sound :
    (∀ fs manifests c registry, Registry.build fs manifests c = .ok registry →
      registry.packages ≠ [] ∧ ∀ d ∈ registry.packages, d.IsSound) ∧
    ∀ (project : Project) (fs : FileSystem) (r : Resolver), project.IsObtained →
      project.resolver fs = .ok r →
      (∀ p ∈ r.packages, p.IsSound) ∧
      ∀ probe target origin relative res,
        Resolver.resolveTraced { r with probe } target origin relative = .ok res →
        ∀ w ∈ res.trace.warnings, w.code ≠ "no_dest" := by
  constructor
  · intro fs manifests c registry h
    exact Registry.build_sound h
  · intro project fs r hp hr
    have hsound := isSound_of_mem_resolver hp.isSettled hr
    refine ⟨hsound, ?_⟩
    intro probe target origin relative res hres w hw hcode
    -- of the three warnings only one has this code, and it needs a package without an output
    obtain ⟨hc, -⟩ | ⟨-, -, -, q, hq, hnone⟩ | hc := Resolver.mayWarn_resolveTraced hres w hw
    · rw [hcode] at hc
      exact absurd hc (by decide)
    · obtain ⟨o, ho, -⟩ := (hsound q hq).output
      rw [hnone] at ho
      cases ho
    · rw [hcode] at hc
      exact absurd hc (by decide)

def starred : FileSystem where
  entries := [(.ofNames ["p"], .directory),
    (.ofNames ["p", configFile], .file (Utf8.encode "[\"*\"]".toList)),
    (.ofNames ["p", "b"], .directory)]
  standpoint := { location := .ofNames ["p"] }

def starredProject : Project :=
  settle {} (.ofString "/p/universal-resolver.json") (.ofString "/p") { packages := [.root "*"] }

def starredResolver : Resolver where
  settings := { output := some "dist" }
  packages := [⟨none, .ofString "/p/b", "src", some "dist", "src", "~"⟩]
  probe := .ofFileSystem starred

theorem packages_sound_starred :
    (∃ registry, Registry.build starred .none starredProject.config = .ok registry ∧
      registry.packages ≠ [] ∧ ∀ d ∈ registry.packages, d.IsSound) ∧
    find starred {} (.ofString "b") = .ok starredProject ∧
    starredProject.resolver starred = .ok starredResolver ∧
    (∀ p ∈ starredResolver.packages, p.IsSound) ∧
    ∃ res, starredResolver.resolveTraced "~/x" (.ofString "/p/b/f.js") false = .ok res ∧
      ∀ w ∈ res.trace.warnings, w.code ≠ "no_dest" := by
  have hbuild : Registry.build starred .none starredProject.config =
      .ok ⟨[{ root := .ofString "/p/b" }]⟩ := by cbv
  have hfind : find starred {} (.ofString "b") = .ok starredProject := by cbv
  have hresolver : starredProject.resolver starred = .ok starredResolver := by cbv
  have hsound := packages_sound.2 starredProject starred starredResolver
    ⟨starred, {}, Or.inl ⟨_, hfind⟩⟩ hresolver
  refine ⟨⟨_, hbuild, packages_sound.1 _ _ _ _ hbuild⟩, hfind, hresolver, hsound.1, ?_⟩
  have hanswer : (starredResolver.resolveTraced "~/x" (.ofString "/p/b/f.js") false).map
      (·.resolved) = .ok "/p/b/src/x" := by cbv
  cases hres : starredResolver.resolveTraced "~/x" (.ofString "/p/b/f.js") false with
  | error e =>
    rw [hres] at hanswer
    cases hanswer
  | ok res => exact ⟨res, rfl, hsound.2 starredResolver.probe _ _ _ res hres⟩

end Monorepo.Project
