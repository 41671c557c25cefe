import Mathlib
import Monorepo.Proofs.FileSystem.RealPath
import Monorepo.Proofs.Registry
import Monorepo.Proofs.Resolver.Destination

/-! Roots that are reached through links. A root is taken as it is written, and a file is looked for
behind its links, so where links are followed a file belongs to the packages around its real
path. -/
namespace Monorepo

def Settings.followingLinks (s : Settings) (links : Bool) : Settings :=
  { s with resolveLinks := links }

namespace Resolver
open Monorepo.Path

def FindsPackage (r : Resolver) (origin : Path) : Prop :=
  ∃ real p, r.realFile origin = .ok real ∧ r.packageOf? real = some p

/-- In a file of the package `p`, `target` stands for `rest` in the sources of `p`. -/
def IsOwn (r : Resolver) (p : Package) (target : String) (rest : List Char) : Prop :=
  Specifier.classify r.settings (some p) target = .aliased p rest ∨
    Specifier.classify r.settings (some p) target = .ownName p rest

theorem exists_packageOf?_iff (r : Resolver) (q : Path) :
    (∃ p, r.packageOf? q = some p) ↔ ∃ p ∈ r.packages, q.isWithin p.root = true := by
  rw [← Option.isSome_iff_exists, packageOf?, List.find?_isSome]
  constructor
  · rintro ⟨⟨p, n⟩, hp, hw⟩
    exact ⟨p, List.mem_of_getElem? (List.mk_mem_zipIdx_iff_getElem?.mp hp), hw⟩
  · rintro ⟨p, hp, hw⟩
    obtain ⟨n, hn⟩ := List.getElem?_of_mem hp
    exact ⟨(p, n), List.mk_mem_zipIdx_iff_getElem?.mpr hn, hw⟩

variable {r : Resolver} {fs : FileSystem} {origin real : Path}

theorem findsPackage_iff (hf : r.realFile origin = .ok real) :
    r.FindsPackage origin ↔ ∃ p ∈ r.packages, real.isWithin p.root = true := by
  rw [← exists_packageOf?_iff, FindsPackage, hf]
  simp

/-- An alias or the name of the package that is found leads into the sources of that package. -/
theorem resolve_of_isOwn {p : Package} {n : Nat} {target : String} {rest : List Char}
    (hf : r.realFile origin = .ok real) (hp : r.packageOf? real = some (p, n))
    (ht : r.IsOwn p target rest) (relative : Bool) :
    r.resolve target origin relative =
      .ok (write target real relative (some (sourcesPath p rest))) := by
  refine resolve_of_destination hf ?_
  rw [destination?, specifierAt, hp]
  obtain ht | ht := ht <;> rw [Option.map_some, ht]

section
variable (settings : Settings) (registry : Registry) (probe : Probe)

theorem exists_package_ofRegistry_iff (q : Path) :
    (∃ p ∈ (ofRegistry settings registry probe).packages, q.isWithin p.root = true) ↔
      ∃ d ∈ registry.packages, q.isWithin d.root = true := by
  simp only [ofRegistry, List.mem_map, exists_exists_and_eq_and]
  rfl

theorem realFile_of_links_off (hn : origin.normalize = origin) :
    (ofRegistry (settings.followingLinks false) registry probe).realFile origin = .ok origin := by
  rw [realFile_eq, hn]
  rfl

theorem realFile_of_links_on (hn : origin.normalize = origin)
    (h : probe.realPath origin = .ok (some real)) :
    (ofRegistry (settings.followingLinks true) registry probe).realFile origin = .ok real := by
  have hlinks : (ofRegistry (settings.followingLinks true) registry probe).settings.resolveLinks =
      true := rfl
  have hreal : (ofRegistry (settings.followingLinks true) registry probe).probe.realPath origin =
      .ok (some real) := h
  rw [realFile_eq, hn, if_pos hlinks, hreal]
  rfl

/-- Whether links are followed can be seen by the importing file only. -/
theorem resolve_followingLinks (hn : origin.normalize = origin)
    (h : probe.realPath origin = .ok (some origin)) (target : String) (relative : Bool) :
    (ofRegistry (settings.followingLinks true) registry probe).resolve target origin relative =
      (ofRegistry (settings.followingLinks false) registry probe).resolve target origin relative :=
  resolve_congr
    ((realFile_of_links_on settings registry probe hn h).trans
      (realFile_of_links_off settings registry probe hn).symm)
    fun _ _ => rfl

end

/-- A file below a root, with no links between the two, keeps a package when links are followed if
the real directory of the root lies in a package, and otherwise only if a package lies between that
directory and the file. Where the root is its own real directory, links make no difference. -/
theorem package_behind_links {fs₀ : FileSystem} {manifests : ManifestSource} {c : Config}
    {registry : Registry} {d : Descriptor} (settings : Settings)
    (hbuild : Registry.build fs₀ manifests c = .ok registry) (hd : d ∈ registry.packages)
    (ha : origin.isAbsolute = true) (hn : origin.normalize = origin)
    (hw : origin.isWithin d.root = true) (hreal : fs.realPath origin = .ok (some real))
    (hlinks : ∀ q : Path, q.normalize = q → q.isWithin d.root = true → q ≠ d.root →
      origin.isWithin q = true → ¬ fs.IsLink q) :
    let on := ofRegistry (settings.followingLinks true) registry (.ofFileSystem fs)
    let off := ofRegistry (settings.followingLinks false) registry (.ofFileSystem fs)
    off.FindsPackage origin ∧
    ∃ base, fs.realPath d.root = .ok (some base) ∧ Twins d.root base origin real ∧
      (on.FindsPackage origin ↔ ∃ e ∈ registry.packages, real.isWithin e.root = true) ∧
      (∀ e ∈ registry.packages, base.isWithin e.root = true → on.FindsPackage origin) ∧
      (∀ p n, on.packageOf? real = some (p, n) → ∀ target rest relative, on.IsOwn p target rest →
        on.resolve target origin relative =
          .ok (write target real relative (some (sourcesPath p rest)))) ∧
      (base = d.root → ∀ target relative,
        on.resolve target origin relative = off.resolve target origin relative) := by
  intro on off
  have hsound := (Registry.build_sound hbuild).2 d hd
  have hoff : off.realFile origin = .ok origin :=
    realFile_of_links_off settings registry _ hn
  have hon : on.realFile origin = .ok real := realFile_of_links_on settings registry _ hn hreal
  have hfinds : on.FindsPackage origin ↔ ∃ e ∈ registry.packages, real.isWithin e.root = true :=
    (findsPackage_iff hon).trans (exists_package_ofRegistry_iff _ registry _ real)
  obtain ⟨base, hbase, habs, hnormal, htwins⟩ :=
    FileSystem.twins_realPath hsound.isAbsolute hsound.normal ha hn hw hreal hlinks
  refine ⟨?_, base, hbase, htwins, hfinds, ?_, ?_, ?_⟩
  · exact (findsPackage_iff hoff).mpr
      ((exists_package_ofRegistry_iff _ registry _ origin).mpr ⟨d, hd, hw⟩)
  · intro e he hb
    obtain ⟨ns, -, hr⟩ := htwins
    exact hfinds.mpr ⟨e, he, isWithin_trans (hr.isWithin_base habs hnormal) hb⟩
  · intro p n hp target rest relative ht
    exact resolve_of_isOwn hon hp ht relative
  · rintro rfl target relative
    obtain ⟨ns, ho, hr⟩ := htwins
    have hsame : real = origin := by
      rw [← FileSystem.normalize_of_realPath ha hreal, ← hn, hr.normalize_eq ho]
    subst hsame
    exact resolve_followingLinks settings registry _ hn hreal target relative

def linkedRoot : FileSystem where
  entries := [(.ofNames ["real"], .directory), (.ofNames ["real", "p"], .directory),
    (.ofNames ["real", "p", "f.js"], .file []),
    (.ofNames ["link"], .link (.ofString "/real"))]
  standpoint := { location := [] }

theorem realPath_linkedRoot :
    linkedRoot.realPath (.ofString "/link/p/f.js") = .ok (some (.ofString "/real/p/f.js")) := by
  cbv

theorem not_isLink_linkedRoot (q : Path) (hn : q.normalize = q)
    (hr : q.isWithin (.ofString "/link/p") = true) (hne : q ≠ .ofString "/link/p")
    (hw : (Path.ofString "/link/p/f.js").isWithin q = true) : ¬ linkedRoot.IsLink q := by
  have hf : linkedRoot.follow ⟨false, true⟩ (.ofString "/link/p/f.js") =
      .ok (.taken (Location.ofNames ["real", "p", "f.js"])) := by cbv
  refine FileSystem.forall_between (P := fun q => ¬ linkedRoot.IsLink q)
    (Location.ofNames ["link", "p"]) (Location.ofNames ["f.js"]) (by decide) ?_ q hn hr hne hw
  intro us hus hempty
  obtain rfl : us = Location.ofNames ["f.js"] := by
    obtain hnil | ⟨ts, rfl, hts⟩ := List.prefix_cons_iff.mp ((List.mem_inits us _).mp hus)
    · exact absurd hnil hempty
    · exact congrArg _ (List.prefix_nil.mp hts)
  exact FileSystem.not_isLink hf fun t ht => by cases ht

def linkedRegistry (others : List Descriptor) : Registry :=
  ⟨{ root := .ofString "/link/p" } :: others⟩

def linkedResolver (others : List Descriptor) (links : Bool) : Resolver :=
  ofRegistry (Settings.followingLinks {} links) (linkedRegistry others) (.ofFileSystem linkedRoot)

theorem package_behind_links_linkedRoot :
    Registry.build linkedRoot .none { packages := [.root "/link/p", .root "real"] } =
      .ok (linkedRegistry [{ root := .ofString "/real" }]) ∧
    (linkedResolver [{ root := .ofString "/real" }] true).FindsPackage (.ofString "/link/p/f.js") ∧
    ∀ relative, (linkedResolver [{ root := .ofString "/real" }] true).resolve "~/x"
        (.ofString "/link/p/f.js") relative =
      .ok (write "~/x" (.ofString "/real/p/f.js") relative (some (.ofString "/real/src/x"))) := by
  have hbuild : Registry.build linkedRoot .none
      { packages := [.root "/link/p", .root "real"] } =
      .ok (linkedRegistry [{ root := .ofString "/real" }]) := by rfl
  obtain ⟨-, base, hbase, -, -, hkeeps, hown, -⟩ := package_behind_links {} hbuild
    List.mem_cons_self rfl (by decide) (by decide) realPath_linkedRoot not_isLink_linkedRoot
  have hreal : linkedRoot.realPath (.ofString "/link/p") =
      .ok (some (.ofString "/real/p")) := by cbv
  rw [hreal] at hbase
  cases hbase
  refine ⟨hbuild, ?_, ?_⟩
  · exact hkeeps { root := .ofString "/real" } (by simp [linkedRegistry]) (by decide)
  · intro relative
    have hp : (linkedResolver [{ root := .ofString "/real" }] true).packageOf?
        (.ofString "/real/p/f.js") =
          some (⟨none, .ofString "/real", "src", none, "src", "~"⟩, 1) := by decide
    have ht : (linkedResolver [{ root := .ofString "/real" }] true).IsOwn
        ⟨none, .ofString "/real", "src", none, "src", "~"⟩ "~/x" "/x".toList := Or.inl rfl
    have hs : sourcesPath ⟨none, .ofString "/real", "src", none, "src", "~"⟩ "/x".toList =
        .ofString "/real/src/x" := by decide
    rw [← hs]
    exact hown _ _ hp _ _ relative ht

/-- Where the root of the only package is reached through a link, the package is lost when links are
followed, and with it the alias. -/
theorem package_lost_behind_link :
    Registry.build linkedRoot .none { packages := [.root "/link/p"] } = .ok (linkedRegistry []) ∧
    (Path.ofString "/link/p/f.js").isAbsolute = true ∧
    (Path.ofString "/link/p/f.js").normalize = .ofString "/link/p/f.js" ∧
    (Path.ofString "/link/p/f.js").isWithin (.ofString "/link/p") = true ∧
    linkedRoot.realPath (.ofString "/link/p/f.js") = .ok (some (.ofString "/real/p/f.js")) ∧
    (∀ q : Path, q.normalize = q → q.isWithin (.ofString "/link/p") = true →
      q ≠ .ofString "/link/p" → (Path.ofString "/link/p/f.js").isWithin q = true →
        ¬ linkedRoot.IsLink q) ∧
    (linkedResolver [] false).FindsPackage (.ofString "/link/p/f.js") ∧
    ¬ (linkedResolver [] true).FindsPackage (.ofString "/link/p/f.js") ∧
    (linkedResolver [] false).resolve "~/x" (.ofString "/link/p/f.js") true = .ok "./src/x" ∧
    (linkedResolver [] true).resolve "~/x" (.ofString "/link/p/f.js") true = .ok "~/x" := by
  have hbuild : Registry.build linkedRoot .none { packages := [.root "/link/p"] } =
      .ok (linkedRegistry []) := by rfl
  have hoff : (linkedResolver [] false).realFile (.ofString "/link/p/f.js") =
      .ok (.ofString "/link/p/f.js") := realFile_of_links_off _ _ _ (by decide)
  have hon : (linkedResolver [] true).realFile (.ofString "/link/p/f.js") =
      .ok (.ofString "/real/p/f.js") := realFile_of_links_on _ _ _ (by decide) realPath_linkedRoot
  have hthere : (linkedResolver [] false).destination? "~/x" (.ofString "/link/p/f.js") =
      .ok (some (.ofString "/link/p/src/x")) := by decide
  have hnone : (linkedResolver [] true).destination? "~/x" (.ofString "/real/p/f.js") =
      .ok none := by decide
  refine ⟨hbuild, rfl, by decide, by decide, realPath_linkedRoot, not_isLink_linkedRoot, ?_, ?_, ?_,
    resolve_of_destination hon hnone⟩
  · exact (findsPackage_iff hoff).mpr (by decide)
  · rw [findsPackage_iff hon]
    decide
  · rw [resolve_of_destination hoff hthere]
    decide

end Resolver
end Monorepo
