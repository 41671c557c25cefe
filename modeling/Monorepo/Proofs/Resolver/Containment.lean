import Monorepo.Proofs.Resolver.Record

/-! No way out of a package. What follows the token in a specifier is looked for below one directory
of the package, and it stays there unless it leads up by itself; the slashes in front of it do not
make it a path from the root. -/
namespace Monorepo.Resolver
open Monorepo.Path Component Trace

/-- Where the answer for something in another package must lie. That depends on the step of the
record that had the last word. An answer is a text, and so it lies in what is shown of a directory,
which is the directory itself if that is a text too. -/
def Contained (r : Resolver) (p : Package) (stepNames : List String) (answer : Path) : Prop :=
  if "collapse_main" ∈ stepNames then
    answer.denotesSame (p.entryDir r.settings.mode).normalize.lossy = true
  else if "substitute_package_dir" ∈ stepNames then
    answer.isWithin (p.packageDir r.settings.mode).normalize.lossy = true
  else "direct_candidate" ∈ stepNames ∧ answer.isWithin p.root.normalize.lossy = true

variable (r : Resolver)

theorem contained_congr (p : Package) (ss ts : List String) (q q' : Path)
    (hs : ∀ s ∈ ["collapse_main", "substitute_package_dir", "direct_candidate"], s ∈ ss ↔ s ∈ ts)
    (hq : q.components = q'.components) : r.Contained p ss q ↔ r.Contained p ts q' := by
  simp only [Contained, denotesSame, isWithin, hq, hs "collapse_main" (by simp),
    hs "substitute_package_dir" (by simp), hs "direct_candidate" (by simp)]

theorem intoPackage_cases (p : Package) (rest : List Char) (isThere : Bool) (path : Path)
    (h : (r.intoPackage .on p rest isThere).1 = some path) :
    (path = directCandidate p rest ∧
      (r.intoPackage .on p rest isThere).2.stepNames = ["direct_candidate"]) ∨
    (path = ((p.packageDir r.settings.mode).join (.ofChars rest)).normalize ∧
      (r.intoPackage .on p rest isThere).2.stepNames =
        ["direct_candidate", "substitute_package_dir"]) := by
  unfold intoPackage at h ⊢
  cases isThere with
  | true =>
    cases h
    exact Or.inl ⟨rfl, rfl⟩
  | false =>
    cases hr : r.settings.resolvePackages with
    | false => simp [hr] at h
    | true =>
      simp only [hr] at h ⊢
      cases h
      refine Or.inr ⟨rfl, ?_⟩
      simp only [Bool.false_eq_true, if_false, if_true]
      split_ifs <;> rfl

/-- Each of the three steps that name a path names its own. -/
theorem intoEntry_cases (p : Package) (rest : List Char) (isThere : Bool) (path : Path)
    (h : (r.intoEntry .on p rest isThere).1 = some path) :
    let names := (r.intoEntry .on p rest isThere).2.stepNames
    ("collapse_main" ∈ names ∧ path = (p.entryDir r.settings.mode).normalize) ∨
    ("collapse_main" ∉ names ∧ "substitute_package_dir" ∈ names ∧
      path = ((p.packageDir r.settings.mode).join (.ofChars rest)).normalize) ∨
    ("collapse_main" ∉ names ∧ "substitute_package_dir" ∉ names ∧ "direct_candidate" ∈ names ∧
      path = directCandidate p rest) := by
  unfold intoEntry at h ⊢
  dsimp only at h ⊢
  split_ifs at h ⊢ with he hnone
  · cases h
    exact Or.inl ⟨by simp [stepNames, Recorder.step, ofStep], rfl⟩
  · obtain ⟨rfl, hn⟩ | ⟨rfl, hn⟩ := r.intoPackage_cases p rest isThere path h
    · exact Or.inr (Or.inr ⟨by simp [hn], by simp [hn], by simp [hn], rfl⟩)
    · exact Or.inr (Or.inl ⟨by simp [hn], by simp [hn], rfl⟩)

theorem contained_intoEntry (p : Package) (rest : List Char) (isThere : Bool) (path : Path)
    (hp : p.root.isAbsolute = true) (hx : (Path.ofChars rest).Confined)
    (h : (r.intoEntry .on p rest isThere).1 = some path) :
    r.Contained p (r.intoEntry .on p rest isThere).2.stepNames path.lossy := by
  obtain ⟨hc, rfl⟩ | ⟨hc, hs, rfl⟩ | ⟨hc, hs, hd, rfl⟩ := r.intoEntry_cases p rest isThere path h
  · rw [Contained, if_pos hc]
    exact beq_self_eq_true _
  · rw [Contained, if_neg hc, if_pos hs]
    exact isWithin_lossy (isWithin_normalize_join _ _ (isAbsolute_outputOr p _ _ hp) hx)
  · rw [Contained, if_neg hc, if_neg hs]
    exact ⟨hd, isWithin_lossy (isWithin_normalize_join p.root _ hp hx)⟩

theorem components_write (target : String) (real q : Path) (hq : q.isAbsolute = true) :
    (Path.ofString (write target real false (some q.normalize))).components =
      q.normalize.lossy.components := by
  have hn : q.normalize.isAbsolute = true := by rw [isAbsolute_normalize, hq]
  have hj := join_of_isAbsolute (originDir real) _ hn
  rw [ofString_write, (spell_of_isAbsolute_join target.toList _ _ (by rw [hj, hn])).2, hj,
    normalize_normalize]

/-- All that is known of a module specifier that was rewritten. -/
theorem intoModule_eq_some (o? : Option (Package × Nat)) (target : List Char) (path : Path)
    (mapped : Trace) (h : r.intoModule .on o? target = .ok (some path, mapped)) :
    ∃ p n rest isThere, r.packageNamed? target = some (p, n, rest) ∧
      (r.intoEntry .on p (trimSlashes rest) isThere).1 = some path ∧
      mapped.stepNames =
        "find_target_package" :: (r.intoEntry .on p (trimSlashes rest) isThere).2.stepNames := by
  obtain ⟨h, -⟩ | ⟨p, n, rest, _, hn, rfl, ⟨h, -⟩ | ⟨isThere, hpath, rfl⟩⟩ :=
    r.intoModule_cases .on o? target _ mapped h
  · cases h
  · cases h
  · exact ⟨p, n, rest, isThere, hn, hpath.symm, rfl⟩

variable {r} {target : String} {origin real : Path} {relative : Bool} {res : Resolution}

/-- The steps taken inside another package are on the record of the whole resolution. -/
theorem resolveTraced_of_module (hf : r.realFile origin = .ok real)
    (hs : r.specifierAt target real = .module) (hp : ¬ r.PassesThrough target real)
    (h : r.resolveTraced target origin relative = .ok res) :
    ∃ p n rest isThere path, r.packageNamed? target.toList = some (p, n, rest) ∧
      r.destination? target real = .ok (some path) ∧
      (r.intoEntry .on p (trimSlashes rest) isThere).1 = some path ∧
      ∀ s ∈ ["collapse_main", "substitute_package_dir", "direct_candidate"],
        s ∈ res.trace.stepNames ↔
          s ∈ (r.intoEntry .on p (trimSlashes rest) isThere).2.stepNames := by
  obtain ⟨real', opened, path?, mapped, last, ho, hpath, hsteps, hname, -, -⟩ :=
    resolveTraced_eq_ok h
  obtain rfl : real' = real := by
    rw [← r.map_fst_realOrigin .on, ho] at hf
    exact Except.ok.inj hf
  have hdest : r.destination? target real' = .ok path? := by
    rw [← r.map_fst_pathFor .on, hpath]
    rfl
  obtain ⟨path, rfl⟩ : ∃ path, path? = some path := by
    cases path? with
    | none => exact absurd ((r.destination?_eq_none_iff target real').mp hdest) hp
    | some path => exact ⟨path, rfl⟩
  rw [hs] at hpath
  obtain ⟨p, n, rest, isThere, hn, hentry, hmapped⟩ := r.intoModule_eq_some _ _ path mapped hpath
  refine ⟨p, n, rest, isThere, path, hn, hdest, hentry, ?_⟩
  have hopened : ∀ s ∈ opened.stepNames, s = "realpath_origin" := by
    obtain hw | hw := r.stepNames_realOrigin origin real' opened ho
    · rw [show opened.stepNames = [] from hw]
      simp
    · rw [show opened.stepNames = ["realpath_origin"] from hw]
      simp
  have hnames : res.trace.stepNames = opened.stepNames ++
      ["find_origin_package", "classify_specifier"] ++ mapped.stepNames ++ ["finalize"] := by
    have hmap := congrArg (List.map (·.name)) hsteps
    rw [List.map_append] at hmap
    change res.trace.stepNames = Trace.stepNames _ ++ [last.name] at hmap
    rw [hmap, hname, stepNames_append, stepNames_append, stepNames_append, stepNames_originStep]
    simp [kindStep, Recorder.step, ofStep, stepNames]
  intro s hmem
  have hother : s ∉ opened.stepNames := by
    intro hm
    rw [hopened s hm] at hmem
    revert hmem
    decide
  rw [hnames, hmapped]
  simp only [List.mem_cons, List.not_mem_nil, or_false] at hmem
  obtain rfl | rfl | rfl := hmem <;> simp [hother]

/-- An alias and the package's own name stay within the sources of the package. -/
theorem resolve_within_sources (hr : ∀ p ∈ r.packages, p.root.isAbsolute = true)
    (hf : r.realFile origin = .ok real) (p : Package) (rest : List Char)
    (hs : r.specifierAt target real = .aliased p rest ∨
      r.specifierAt target real = .ownName p rest)
    (hx : parent ∉ (Path.ofChars rest).components) :
    (r.packageOf? real).map (·.1) = some p ∧
      ∃ answer, r.resolve target origin false = .ok answer ∧
        (Path.ofString answer).isWithin p.sourceDir.normalize.lossy = true := by
  have hspec := Specifier.classify_spec r.settings ((r.packageOf? real).map (·.1)) target
  have hpkg : (r.packageOf? real).map (·.1) = some p := by
    unfold specifierAt at hs
    obtain hs | hs := hs <;> rw [hs] at hspec <;> exact hspec.1
  obtain ⟨⟨q, n⟩, hq, rfl⟩ := Option.map_eq_some_iff.mp hpkg
  have hroot := hr q (mem_of_packageOf? hq)
  have hsource : q.sourceDir.isAbsolute = true := isAbsolute_join _ _ hroot
  have hdest : r.destination? target real = .ok (some (sourcesPath q rest)) := by
    obtain hs | hs := hs <;> rw [destination?, hs]
  refine ⟨hpkg, _, resolve_of_destination hf hdest, ?_⟩
  rw [isWithin, sourcesPath, components_write _ _ _ (isAbsolute_join _ _ hsource)]
  exact isWithin_lossy (isWithin_normalize_join _ _ hsource (confined_trimSlashes rest hx))

theorem exists_normal_of_module (hr : ∀ p ∈ r.packages, p.root.isAbsolute = true) {path : Path}
    (hs : r.specifierAt target real = .module)
    (hdest : r.destination? target real = .ok (some path)) :
    ∃ q : Path, q.isAbsolute = true ∧ path = q.normalize := by
  obtain ⟨hrel, -⟩ | ⟨-, hq⟩ := r.destination?_eq_some target real path hr hdest
  · have hspec := Specifier.classify_spec r.settings ((r.packageOf? real).map (·.1)) target
    rw [show Specifier.classify _ _ _ = .module from hs, hrel] at hspec
    cases hspec.1
  · exact hq

theorem resolved_of_destination {path? : Option Path} (hf : r.realFile origin = .ok real)
    (hdest : r.destination? target real = .ok path?)
    (h : r.resolveTraced target origin relative = .ok res) :
    res.resolved = write target real relative path? := by
  have hresolve := (r.map_resolved_run .on target origin relative).symm.trans
    (congrArg (Except.map (·.resolved)) h)
  rw [← r.resolve_eq_answer, resolve_of_destination hf hdest] at hresolve
  exact (Except.ok.inj hresolve).symm

/-- The name of another package stays within the directory that the record tells of. If it tells of
the entry, the answer is the entry itself. -/
theorem resolve_within_package (hr : ∀ p ∈ r.packages, p.root.isAbsolute = true)
    (hf : r.realFile origin = .ok real) (p : Package) (n : Nat) (rest : List Char)
    (hs : r.specifierAt target real = .module) (hp : ¬ r.PassesThrough target real)
    (hn : r.packageNamed? target.toList = some (p, n, rest))
    (hx : parent ∉ (Path.ofChars rest).components)
    (h : r.resolveTraced target origin false = .ok res) :
    r.resolve target origin false = .ok res.resolved ∧
      r.Contained p res.trace.stepNames (.ofString res.resolved) ∧
      ("collapse_main" ∈ res.trace.stepNames →
        let entry := (p.entryDir r.settings.mode).normalize
        res.resolved = if target.toList.getLast? = some '/' ∧ entry ≠ ⟨[slash]⟩
          then entry.text ++ "/" else entry.text) := by
  obtain ⟨p', n', rest', isThere, path, hn', hdest, hentry, hnames⟩ :=
    resolveTraced_of_module hf hs hp h
  obtain ⟨rfl, rfl, rfl⟩ : p = p' ∧ n = n' ∧ rest = rest' := by simpa [hn] using hn'
  have hroot := hr p (mem_of_packageNamed? hn)
  have hres := resolved_of_destination hf hdest h
  obtain ⟨q, hq, rfl⟩ := exists_normal_of_module hr hs hdest
  have hcontained := r.contained_intoEntry p _ isThere _ hroot (confined_trimSlashes rest hx) hentry
  refine ⟨hres ▸ resolve_of_destination hf hdest, ?_, ?_⟩
  · rw [hres]
    exact (r.contained_congr p _ _ _ _ hnames (components_write target real q hq)).mpr hcontained
  · intro hc
    have hentry : q.normalize = (p.entryDir r.settings.mode).normalize := by
      obtain ⟨-, h⟩ | ⟨hno, -⟩ | ⟨hno, -⟩ := r.intoEntry_cases p _ isThere _ hentry
      · exact h
      · exact absurd ((hnames _ (by simp)).mp hc) hno
      · exact absurd ((hnames _ (by simp)).mp hc) hno
    rw [hres, hentry]
    exact write_normalize real _ (isAbsolute_outputOr p _ _ hroot)

variable (r) (target) (origin) (real)

/-- A specifier whose rest does not lead up does not leave its package. An alias and the package's
own name stay within the sources; the name of another package stays within the directory that the
record tells of, and stands for the entry directory itself if the record says so. -/
theorem stays_in_package (hr : ∀ p ∈ r.packages, p.root.isAbsolute = true)
    (hf : r.realFile origin = .ok real) :
    (∀ p rest, r.specifierAt target real = .aliased p rest ∨
        r.specifierAt target real = .ownName p rest →
      parent ∉ (Path.ofChars rest).components →
      (r.packageOf? real).map (·.1) = some p ∧
      ∃ answer, r.resolve target origin false = .ok answer ∧
        (Path.ofString answer).isWithin p.sourceDir.normalize.lossy = true) ∧
    (∀ p n rest res, r.specifierAt target real = .module → ¬ r.PassesThrough target real →
      r.packageNamed? target.toList = some (p, n, rest) → parent ∉ (Path.ofChars rest).components →
      r.resolveTraced target origin false = .ok res →
      r.resolve target origin false = .ok res.resolved ∧
      r.Contained p res.trace.stepNames (.ofString res.resolved) ∧
      ("collapse_main" ∈ res.trace.stepNames →
        let entry := (p.entryDir r.settings.mode).normalize
        res.resolved = if target.toList.getLast? = some '/' ∧ entry ≠ ⟨[slash]⟩
          then entry.text ++ "/" else entry.text)) := by
  constructor
  · intro p rest hs hx
    exact resolve_within_sources hr hf p rest hs hx
  · intro p n rest res hs hp hn hx h
    exact resolve_within_package hr hf p n rest hs hp hn hx h

def besides : Resolver where
  settings := { mode := .production, resolveLinks := false }
  packages := [⟨some "a", .ofString "/r/a", "../shared/./src", none, "src", "~"⟩,
    ⟨some "b", .ofString "/r/b", "src", some "/out/b/..", "lib", "#"⟩]
  probe := ⟨fun _ => .ok none, fun _ => .ok false⟩

theorem stays_in_package_besides :
    (∀ p ∈ besides.packages, p.root.isAbsolute = true) ∧
    besides.realFile (.ofString "/r/a/f.js") = .ok (.ofString "/r/a/f.js") ∧
    (∃ p rest, besides.specifierAt "~//etc/./x" (.ofString "/r/a/f.js") = .aliased p rest ∧
      parent ∉ (Path.ofChars rest).components ∧
      ∃ answer, besides.resolve "~//etc/./x" (.ofString "/r/a/f.js") false = .ok answer ∧
        (Path.ofString answer).isWithin p.sourceDir.normalize.lossy = true) ∧
    (∃ p n rest res, besides.specifierAt "b///" (.ofString "/r/a/f.js") = .module ∧
      ¬ besides.PassesThrough "b///" (.ofString "/r/a/f.js") ∧
      besides.packageNamed? "b///".toList = some (p, n, rest) ∧
      parent ∉ (Path.ofChars rest).components ∧
      besides.resolveTraced "b///" (.ofString "/r/a/f.js") false = .ok res ∧
      besides.Contained p res.trace.stepNames (.ofString res.resolved)) := by
  have hr : ∀ p ∈ besides.packages, p.root.isAbsolute = true := by decide
  have hf : besides.realFile (.ofString "/r/a/f.js") = .ok (.ofString "/r/a/f.js") := by decide
  have ha : besides.specifierAt "~//etc/./x" (.ofString "/r/a/f.js") =
      .aliased ⟨some "a", .ofString "/r/a", "../shared/./src", none, "src", "~"⟩
        "//etc/./x".toList := rfl
  have hb : besides.specifierAt "b///" (.ofString "/r/a/f.js") = .module := rfl
  have hp : ¬ besides.PassesThrough "b///" (.ofString "/r/a/f.js") := by
    rw [← destination?_eq_none_iff]
    decide
  have hn : besides.packageNamed? "b///".toList =
      some (⟨some "b", .ofString "/r/b", "src", some "/out/b/..", "lib", "#"⟩, 1,
        "///".toList) := by decide
  obtain ⟨res, hres⟩ :
      ∃ res, besides.resolveTraced "b///" (.ofString "/r/a/f.js") false = .ok res :=
    ⟨_, rfl⟩
  refine ⟨hr, hf, ⟨_, _, ha, by decide, ?_⟩, ⟨_, _, _, res, hb, hp, hn, by decide, hres, ?_⟩⟩
  · exact ((stays_in_package besides _ _ _ hr hf).1 _ _ (Or.inl ha) (by decide)).2
  · exact ((stays_in_package besides _ _ _ hr hf).2 _ _ _ res hb hp hn (by decide) hres).2.1

/-- An answer is a text, and lies beside a package in a directory that is none. The answer for the
bare name of a package keeps the slash of its specifier, which the entry directory has not. -/
theorem outside_garbled_package :
    (∃ p rest, garbled.specifierAt "~/x" (garbledRoot.join (.ofString "f.js")) = .aliased p rest ∧
      parent ∉ (Path.ofChars rest).components ∧
      garbled.resolve "~/x" (garbledRoot.join (.ofString "f.js")) false = .ok "/r/\uFFFD/src/x" ∧
      (Path.ofString "/r/\uFFFD/src/x").isWithin p.sourceDir.normalize = false) ∧
    ∃ p n, besides.packageNamed? "b/".toList = some (p, n, ['/']) ∧
      (besides.resolveTraced "b/" (.ofString "/r/a/f.js") false).map (·.trace.stepNames) =
        .ok ["find_origin_package", "classify_specifier", "find_target_package",
          "direct_candidate", "substitute_package_dir", "collapse_main", "finalize"] ∧
      besides.resolve "b/" (.ofString "/r/a/f.js") false = .ok "/out/" ∧
      (p.entryDir besides.settings.mode).normalize.text = "/out" :=
  ⟨⟨⟨some "a", garbledRoot, "src", none, "src", "~"⟩, ['/', 'x'], by rfl, by decide⟩,
    ⟨some "b", .ofString "/r/b", "src", some "/out/b/..", "lib", "#"⟩, 1, by decide⟩

end Monorepo.Resolver
