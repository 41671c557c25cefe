import Mathlib.Computability.RegularExpressions
import Monorepo.Proofs.Resolver.Spelling

/-! What the record of a resolution says. Its steps form a word of a small language, its last step
tells whether the specifier was rewritten, and the step before that names the path. -/
namespace Monorepo
namespace Trace
open RegularExpression

def maybe (P : RegularExpression String) : RegularExpression String := 1 + P

def packageWords : RegularExpression String :=
  char "direct_candidate" * maybe (char "substitute_package_dir") * maybe (char "collapse_main")

def pathWords : RegularExpression String :=
  1 + (char "resolve_prefix" + char "find_target_package" * maybe packageWords)

def openWords : RegularExpression String :=
  maybe (char "realpath_origin") * char "find_origin_package" * char "classify_specifier" *
    pathWords

def words : RegularExpression String := openWords * char "finalize"

theorem nil_mem_maybe (P : RegularExpression String) : [] ∈ (maybe P).matches' :=
  Or.inl rfl

theorem mem_maybe (P : RegularExpression String) (w : List String) (h : w ∈ P.matches') :
    w ∈ (maybe P).matches' :=
  Or.inr h

theorem append_mem (P Q : RegularExpression String) (v w : List String) (hv : v ∈ P.matches')
    (hw : w ∈ Q.matches') : v ++ w ∈ (P * Q).matches' :=
  Language.append_mem_mul hv hw

def Avoids (a : String) (P : RegularExpression String) : Prop := ∀ w ∈ P.matches', a ∉ w

theorem avoids_char (a b : String) (h : a ≠ b) : Avoids a (char b) := by
  intro w hw
  rw [show w = [b] from hw]
  simpa using h

theorem Avoids.maybe {a : String} {P : RegularExpression String} (h : Avoids a P) :
    Avoids a (Trace.maybe P) := by
  rintro w (hw | hw)
  · rw [show w = [] from hw]
    simp
  · exact h w hw

theorem Avoids.mul {a : String} {P Q : RegularExpression String} (hp : Avoids a P)
    (hq : Avoids a Q) : Avoids a (P * Q) := by
  rintro w ⟨u, hu, v, hv, rfl⟩
  simpa using ⟨hp u hu, hq v hv⟩

theorem avoids_finalize : Avoids "finalize" openWords := by
  have hpackage : Avoids "finalize" packageWords :=
    ((avoids_char _ _ (by decide)).mul (avoids_char _ _ (by decide)).maybe).mul
      (avoids_char _ _ (by decide)).maybe
  have hpath : Avoids "finalize" pathWords := by
    refine Avoids.maybe ?_
    rintro w (hw | hw)
    · exact avoids_char _ _ (by decide) w hw
    · exact (avoids_char _ _ (by decide)).mul hpackage.maybe w hw
  exact (((avoids_char _ _ (by decide)).maybe.mul (avoids_char _ _ (by decide))).mul
    (avoids_char _ _ (by decide))).mul hpath

@[simp] theorem steps_append (t u : Trace) : (t ++ u).steps = t.steps ++ u.steps := rfl

@[simp] theorem stepNames_append (t u : Trace) :
    (t ++ u).stepNames = t.stepNames ++ u.stepNames := by
  simp [stepNames]

def EndsAt (t : Trace) (path : Path) : Prop :=
  ∃ before s, t.steps = before ++ [s] ∧ s.ok = true ∧ s.path = some path

theorem EndsAt.prepend {u : Trace} {path : Path} (h : u.EndsAt path) (t : Trace) :
    (t ++ u).EndsAt path := by
  obtain ⟨before, s, hs, hok, hp⟩ := h
  exact ⟨t.steps ++ before, s, by rw [steps_append, hs, List.append_assoc], hok, hp⟩

theorem endsAt_ofStep (name : String) (path : Path) (detail : String) :
    (ofStep name true (some path) detail).EndsAt path :=
  ⟨[], _, rfl, rfl, rfl⟩

end Trace

namespace Resolver
open Trace RegularExpression

variable (r : Resolver)

theorem stepNames_realOrigin (origin real : Path) (opened : Trace)
    (h : r.realOrigin .on origin = .ok (real, opened)) :
    opened.stepNames ∈ (maybe (char "realpath_origin")).matches' := by
  simp only [realOrigin] at h
  by_cases hl : r.settings.resolveLinks = true
  · rw [if_neg (by simp [hl])] at h
    cases hp : r.probe.realPath origin.normalize with
    | error e => simp [hp] at h
    | ok real? =>
      rw [hp] at h
      cases real? with
      | none =>
        cases h
        exact nil_mem_maybe _
      | some real' =>
        cases h
        exact mem_maybe _ _ rfl
  · rw [if_pos hl] at h
    cases h
    exact nil_mem_maybe _

theorem stepNames_originStep (o? : Option (Package × Nat)) :
    (originStep .on o?).stepNames = ["find_origin_package"] := by
  cases o? <;> rfl

theorem stepNames_intoPackage (p : Package) (rest : List Char) (isThere : Bool) :
    (r.intoPackage .on p rest isThere).2.stepNames ∈
      (char "direct_candidate" * maybe (char "substitute_package_dir")).matches' := by
  rw [intoPackage]
  cases isThere with
  | true => exact append_mem _ _ ["direct_candidate"] [] rfl (nil_mem_maybe _)
  | false =>
    cases r.settings.resolvePackages with
    | false => exact append_mem _ _ ["direct_candidate"] [] rfl (nil_mem_maybe _)
    | true =>
      have hw := append_mem (char "direct_candidate") (maybe (char "substitute_package_dir"))
        ["direct_candidate"] ["substitute_package_dir"] rfl (mem_maybe _ _ rfl)
      simp only [Bool.false_eq_true, if_false, if_true]
      split_ifs <;> exact hw

theorem endsAt_intoPackage (p : Package) (rest : List Char) (isThere : Bool) (path : Path)
    (h : (r.intoPackage .on p rest isThere).1 = some path) :
    (r.intoPackage .on p rest isThere).2.EndsAt path := by
  unfold intoPackage at h ⊢
  cases isThere with
  | true =>
    cases h
    exact endsAt_ofStep _ _ _
  | false =>
    cases hr : r.settings.resolvePackages with
    | false => simp [hr] at h
    | true =>
      simp only [hr] at h ⊢
      cases h
      exact (endsAt_ofStep _ _ _).prepend _

theorem stepNames_intoEntry (p : Package) (rest : List Char) (isThere : Bool) :
    (r.intoEntry .on p rest isThere).2.stepNames ∈ packageWords.matches' := by
  have hp := r.stepNames_intoPackage p rest isThere
  rw [intoEntry]
  dsimp only
  split_ifs
  · rw [stepNames_append]
    exact append_mem _ _ _ ["collapse_main"] hp (mem_maybe _ _ rfl)
  · rw [stepNames_append]
    exact append_mem _ _ _ [] hp (nil_mem_maybe _)
  · have h := append_mem _ _ _ [] hp (nil_mem_maybe (char "collapse_main"))
    rwa [List.append_nil] at h

/-- An entry overrides the path that was found before it, and is taken down after it. -/
theorem endsAt_intoEntry (p : Package) (rest : List Char) (isThere : Bool) (path : Path)
    (h : (r.intoEntry .on p rest isThere).1 = some path) :
    (r.intoEntry .on p rest isThere).2.EndsAt path := by
  have hp := r.endsAt_intoPackage p rest isThere path
  unfold intoEntry at h ⊢
  dsimp only at h ⊢
  split_ifs at h ⊢
  · cases h
    exact (endsAt_ofStep _ _ _).prepend _
  · exact hp h

/-- What can come of a module specifier. No package has its name, or the importing one has it, or it
leads into another package. -/
theorem intoModule_cases (log : Recorder) (o? : Option (Package × Nat)) (target : List Char)
    (path? : Option Path) (mapped : Trace) (h : r.intoModule log o? target = .ok (path?, mapped)) :
    (path? = none ∧ mapped =
      log.step "find_target_package" false none "no configured package matches") ∨
    ∃ p n rest found, r.packageNamed? target = some (p, n, rest) ∧
      found = log.step "find_target_package" true (some p.root) s!"target belongs to {p.title}" ∧
      (path? = none ∧ mapped =
        found ++ log.warning "not_rewritten" "target is the origin package itself" ∨
      ∃ isThere, path? = (r.intoEntry log p (trimSlashes rest) isThere).1 ∧
        mapped = found ++ (r.intoEntry log p (trimSlashes rest) isThere).2) := by
  unfold intoModule at h
  cases hn : r.packageNamed? target with
  | none =>
    rw [hn] at h
    cases h
    exact Or.inl ⟨rfl, rfl⟩
  | some x =>
    obtain ⟨p, n, rest⟩ := x
    rw [hn] at h
    dsimp only at h
    refine Or.inr ⟨p, n, rest, _, rfl, rfl, ?_⟩
    split_ifs at h
    · cases h
      exact Or.inl ⟨rfl, rfl⟩
    · cases hp : r.probe.present (directCandidate p (trimSlashes rest)) with
      | error e => simp [hp] at h
      | ok isThere =>
        rw [hp] at h
        cases h
        exact Or.inr ⟨isThere, rfl, rfl⟩

theorem stepNames_intoModule (o? : Option (Package × Nat)) (target : List Char)
    (path? : Option Path) (mapped : Trace)
    (h : r.intoModule .on o? target = .ok (path?, mapped)) :
    mapped.stepNames ∈ (char "find_target_package" * maybe packageWords).matches' ∧
      ∀ path, path? = some path → mapped.EndsAt path := by
  have hfound := append_mem (char "find_target_package") (maybe packageWords)
    ["find_target_package"] [] rfl (nil_mem_maybe _)
  obtain ⟨rfl, rfl⟩ | ⟨p, n, rest, _, -, rfl, ⟨rfl, rfl⟩ | ⟨isThere, rfl, rfl⟩⟩ :=
    r.intoModule_cases .on o? target path? mapped h
  · exact ⟨hfound, by simp⟩
  · exact ⟨hfound, by simp⟩
  · have hw := r.stepNames_intoEntry p (trimSlashes rest) isThere
    refine ⟨append_mem _ _ ["find_target_package"] _ rfl (mem_maybe _ _ hw), ?_⟩
    intro path hpath
    exact (r.endsAt_intoEntry p _ isThere path hpath).prepend _

theorem stepNames_pathFor (o? : Option (Package × Nat)) (target : String) (s : Specifier)
    (path? : Option Path) (mapped : Trace)
    (h : r.pathFor .on o? target s = .ok (path?, mapped)) :
    mapped.stepNames ∈ pathWords.matches' ∧
      (s ≠ .relative → ∀ path, path? = some path → mapped.EndsAt path) := by
  cases s with
  | relative =>
    cases h
    exact ⟨Or.inl rfl, fun hs => absurd rfl hs⟩
  | aliased p rest =>
    cases h
    refine ⟨Or.inr (Or.inl rfl), ?_⟩
    intro _ path hp
    cases hp
    exact endsAt_ofStep _ _ _
  | ownName p rest =>
    cases h
    refine ⟨Or.inr (Or.inl rfl), ?_⟩
    intro _ path hp
    cases hp
    exact endsAt_ofStep _ _ _
  | module =>
    obtain ⟨hw, he⟩ := r.stepNames_intoModule o? target.toList path? mapped h
    exact ⟨Or.inr (Or.inr hw), fun _ => he⟩

variable {r} {target : String} {origin : Path} {relative : Bool} {res : Resolution}

/-- All that a resolution on record consists of. What is put behind the rest is one step. -/
theorem trace_resolveTraced (h : r.resolveTraced target origin relative = .ok res) :
    ∃ real opened path? mapped last, r.realOrigin .on origin = .ok (real, opened) ∧
      r.pathFor .on (r.packageOf? real) target (r.specifierAt target real) =
        .ok (path?, mapped) ∧
      res.trace = opened ++ originStep .on (r.packageOf? real) ++
        kindStep .on target (r.specifierAt target real) ++ mapped ++ ⟨[last], []⟩ ∧
      last.name = "finalize" ∧ last.ok = path?.isSome ∧
      res.resolved = write target real relative path? := by
  unfold resolveTraced run at h
  cases ho : r.realOrigin .on origin with
  | error e =>
    rw [ho] at h
    cases h
  | ok x =>
    obtain ⟨real, opened⟩ := x
    rw [ho] at h
    change Except.bind (r.pathFor .on _ target (r.specifierAt target real)) _ = _ at h
    cases hp : r.pathFor .on (r.packageOf? real) target (r.specifierAt target real) with
    | error e =>
      rw [hp] at h
      cases h
    | ok y =>
      obtain ⟨path?, mapped⟩ := y
      rw [hp] at h
      cases path? with
      | none =>
        cases h
        exact ⟨real, opened, none, mapped, _, rfl, hp, rfl, rfl, rfl, rfl⟩
      | some path =>
        cases h
        exact ⟨real, opened, some path, mapped, _, rfl, hp, rfl, rfl, rfl, rfl⟩

theorem resolveTraced_eq_ok (h : r.resolveTraced target origin relative = .ok res) :
    ∃ real opened path? mapped last, r.realOrigin .on origin = .ok (real, opened) ∧
      r.pathFor .on (r.packageOf? real) target (r.specifierAt target real) =
        .ok (path?, mapped) ∧
      res.trace.steps = (opened ++ originStep .on (r.packageOf? real) ++
        kindStep .on target (r.specifierAt target real) ++ mapped).steps ++ [last] ∧
      last.name = "finalize" ∧ last.ok = path?.isSome ∧
      res.resolved = write target real relative path? := by
  obtain ⟨real, opened, path?, mapped, last, ho, hp, ht, hrest⟩ := trace_resolveTraced h
  exact ⟨real, opened, path?, mapped, last, ho, hp, by rw [ht, steps_append], hrest⟩

/-- The record of a rewritten specifier that is not relative ends at the path before it is
spelled. -/
theorem endsAt_append_pathFor {o? : Option (Package × Nat)} {s : Specifier} {path : Path}
    {mapped : Trace} (before : Trace)
    (h : r.pathFor .on o? target s = .ok (some path, mapped)) (hs : s ≠ .relative) :
    (before ++ mapped).EndsAt path :=
  ((r.stepNames_pathFor o? target s _ mapped h).2 hs path rfl).prepend before

theorem stepNames_mem_openWords {real : Path} {opened mapped : Trace} {path? : Option Path}
    (ho : r.realOrigin .on origin = .ok (real, opened))
    (hp : r.pathFor .on (r.packageOf? real) target (r.specifierAt target real) =
      .ok (path?, mapped)) :
    (opened ++ originStep .on (r.packageOf? real) ++
      kindStep .on target (r.specifierAt target real) ++ mapped).stepNames ∈
      openWords.matches' := by
  simp only [stepNames_append, stepNames_originStep]
  exact append_mem _ _ _ _ (append_mem _ _ _ ["classify_specifier"] (append_mem _ _ _
    ["find_origin_package"] (r.stepNames_realOrigin origin real opened ho) rfl) rfl)
    (r.stepNames_pathFor _ _ _ _ _ hp).1

/-- The absolute answer for a normal absolute path is its text. A slash is put behind it if the
target has one and the path is not the root. -/
theorem write_normalize (real q : Path) (hq : q.isAbsolute = true) :
    write target real false (some q.normalize) =
      if target.toList.getLast? = some '/' ∧ q.normalize ≠ ⟨[slash]⟩ then q.normalize.text ++ "/"
      else q.normalize.text := by
  have hn : q.normalize.isAbsolute = true := by rw [Path.isAbsolute_normalize, hq]
  rw [write, spell_absolute_eq, Path.join_of_isAbsolute _ _ hn, Path.normalize_normalize, withSlash]
  have hlast : q.normalize.shown.getLast? = some '/' ↔ q.normalize = ⟨[slash]⟩ := by
    rw [← Path.getLast?_normalize_iff, Path.getLast?_shown_iff]
  simp only [ne_eq, hlast]
  split_ifs
  · rw [String.ofList_append]
    rfl
  · rfl

variable (r) (target) (origin) (relative)

/-- Whether a resolution and its record tell one story. What the record ends with is the path
itself, so a path that was overridden later would show. -/
def RecordIsTrue : Prop :=
  r.resolve target origin relative = (r.resolveTraced target origin relative).map (·.resolved) ∧
  ∀ res, r.resolveTraced target origin relative = .ok res →
    ∃ real before last, r.realFile origin = .ok real ∧ res.trace.steps = before ++ [last] ∧
      res.trace.stepNames ∈ words.matches' ∧
      last.name = "finalize" ∧ (∀ s ∈ before, s.name ≠ "finalize") ∧
      (last.ok = false ↔ r.PassesThrough target real) ∧
      (last.ok = false → res.resolved = target) ∧
      (last.ok = true → Specifier.isRelative target = false →
        ∃ earlier s path, before = earlier ++ [s] ∧ s.ok = true ∧ s.path = some path ∧
          r.resolve target origin false = .ok
            (if target.toList.getLast? = some '/' ∧ path ≠ ⟨[slash]⟩ then path.text ++ "/"
              else path.text))

theorem record_is_true (hr : ∀ p ∈ r.packages, p.root.isAbsolute = true) :
    r.RecordIsTrue target origin relative := by
  refine ⟨(r.resolve_eq_answer target origin relative).trans
    (r.map_resolved_run .on target origin relative).symm, ?_⟩
  intro res h
  obtain ⟨real, opened, path?, mapped, last, ho, hp, hsteps, hname, hok, hres⟩ :=
    resolveTraced_eq_ok h
  have hreal : r.realFile origin = .ok real := by rw [← r.map_fst_realOrigin .on, ho]; rfl
  have hdest : r.destination? target real = .ok path? := by
    rw [← r.map_fst_pathFor .on, hp]; rfl
  have hwords := stepNames_mem_openWords ho hp
  refine ⟨real, _, last, hreal, hsteps, ?_, hname, ?_, ?_, ?_, ?_⟩
  · have hn : res.trace.stepNames = (opened ++ originStep .on (r.packageOf? real) ++
        kindStep .on target (r.specifierAt target real) ++ mapped).stepNames ++ ["finalize"] := by
      rw [Trace.stepNames, hsteps, List.map_append]
      simp [Trace.stepNames, hname]
    rw [hn]
    exact append_mem _ _ _ _ hwords rfl
  · intro s hs hn
    exact avoids_finalize _ hwords (List.mem_map.mpr ⟨s, hs, hn⟩)
  · rw [hok, ← r.destination?_eq_none_iff, hdest]
    cases path? <;> simp
  · intro hf
    rw [hok] at hf
    cases path? with
    | none => exact hres
    | some path => cases hf
  · intro ht hrel
    rw [hok] at ht
    obtain ⟨path, rfl⟩ := Option.isSome_iff_exists.mp ht
    obtain ⟨hc, -⟩ | ⟨-, q, hq, rfl⟩ := r.destination?_eq_some target real path hr hdest
    · rw [hrel] at hc
      cases hc
    · have hs : r.specifierAt target real ≠ .relative := by
        intro hs
        rw [Specifier.isRelative_of_classify _ _ _ hs] at hrel
        cases hrel
      obtain ⟨earlier, s, he, hsok, hsp⟩ := endsAt_append_pathFor
        (opened ++ originStep .on (r.packageOf? real) ++
          kindStep .on target (r.specifierAt target real)) hp hs
      refine ⟨earlier, s, q.normalize, he, hsok, hsp, ?_⟩
      rw [resolve_of_destination hreal hdest, write_normalize real q hq]

def rooted : Resolver where
  settings := { resolveLinks := false, mode := .production }
  packages := [⟨some "a", .ofString "/", ".", none, "src", "~"⟩,
    ⟨some "@s/b", .ofString "/b", "src", some "dist", "src", "#"⟩]
  probe := ⟨fun _ => .ok none, fun _ => .ok false⟩

theorem record_is_true_rooted :
    (∀ p ∈ rooted.packages, p.root.isAbsolute = true) ∧
    rooted.RecordIsTrue "@s/b//" (.ofString "/f.js") true := by
  have hr : ∀ p ∈ rooted.packages, p.root.isAbsolute = true := by decide
  exact ⟨hr, record_is_true rooted _ _ _ hr⟩

/-- The root is spelled with one slash, also for a target that ends with a slash: what comes out is
not the path that is taken down last with a slash put behind it. -/
theorem root_not_spelled_with_two_slashes :
    ¬ ∀ res, rooted.resolveTraced "~/" (.ofString "/f.js") false = .ok res →
      ∀ before last, res.trace.steps = before ++ [last] → last.ok = true →
        Specifier.isRelative "~/" = false →
        ∃ earlier s path, before = earlier ++ [s] ∧ s.ok = true ∧ s.path = some path ∧
          rooted.resolve "~/" (.ofString "/f.js") false = .ok (path.text ++ "/") := by
  intro h
  have hrecord : (rooted.resolveTraced "~/" (.ofString "/f.js") false).map
      (fun res => res.trace.steps.map fun s => (s.ok, s.path)) =
      .ok ([(true, some ⟨[slash]⟩), (true, none)] ++ [(true, some ⟨[slash]⟩)] ++
        [(true, none)]) := by
    decide
  have hanswer : rooted.resolve "~/" (.ofString "/f.js") false = .ok "/" := by decide
  cases hres : rooted.resolveTraced "~/" (.ofString "/f.js") false with
  | error e =>
    rw [hres] at hrecord
    cases hrecord
  | ok res =>
    rw [hres] at hrecord
    obtain ⟨before, rest, hsteps, hbefore, hrest⟩ :=
      List.map_eq_append_iff.mp (Except.ok.inj hrecord)
    obtain ⟨last, rfl, hlast⟩ := List.map_eq_singleton_iff.mp hrest
    obtain ⟨earlier, s, path, rfl, -, hp, hout⟩ :=
      h res hres before last hsteps (congrArg Prod.fst hlast) (by decide)
    rw [List.map_append] at hbefore
    have hs : (s.ok, s.path) = (true, some ⟨[slash]⟩) := by
      simpa using (List.append_inj' hbefore rfl).2
    have hpath : path = ⟨[slash]⟩ := by simpa [hp] using congrArg Prod.snd hs
    rw [hanswer, hpath] at hout
    exact absurd hout (by decide)

/-- Nor does the path come out that is taken down last where it is no text. -/
theorem recorded_path_not_spelled :
    (¬ ∀ res, rooted.resolveTraced "~/" (.ofString "/f.js") false = .ok res →
      ∀ before last, res.trace.steps = before ++ [last] → last.ok = true →
        Specifier.isRelative "~/" = false →
        ∃ earlier s path, before = earlier ++ [s] ∧ s.ok = true ∧ s.path = some path ∧
          rooted.resolve "~/" (.ofString "/f.js") false = .ok (path.text ++ "/")) ∧
    (garbled.resolveTraced "~/x" (garbledRoot.join (.ofString "f.js")) false).map
        (fun res => (res.trace.steps.map (·.path), res.resolved)) =
      .ok ([some garbledRoot, none, some (garbledRoot.join (.ofString "src/x")), none],
        "/r/\uFFFD/src/x") ∧
    Path.ofString "/r/\uFFFD/src/x" ≠ garbledRoot.join (.ofString "src/x") :=
  ⟨root_not_spelled_with_two_slashes, by decide⟩

end Resolver
end Monorepo
