import Mathlib.Data.List.DropRight
import Monorepo.Proofs.Outcome
import Monorepo.Resolver.Tools

/-! What an import leads to on a disk. The paths that it may mean are looked at one after the other
until there is something at one of them or the disk cannot be asked about one; those behind are not
looked at. -/
namespace Monorepo.Resolver

/-- Along the paths `ps`, one comes to look at `p`: there is nothing at those in front of it. -/
def Reaches (r : Resolver) (ps : List Path) (p : Path) : Prop :=
  ∃ before after, ps = before ++ p :: after ∧ ∀ q ∈ before, r.probe.present q = .ok false

variable {r : Resolver} {probe : Probe} {ps : List Path} {p q : Path}

theorem not_reaches_nil : ¬ r.Reaches [] p := by
  rintro ⟨before, after, h, -⟩
  cases before <;> cases h

theorem reaches_cons_iff :
    r.Reaches (q :: ps) p ↔ p = q ∨ r.probe.present q = .ok false ∧ r.Reaches ps p := by
  constructor
  · rintro ⟨before, after, h, hmissing⟩
    cases before with
    | nil =>
      cases h
      exact Or.inl rfl
    | cons b before =>
      cases h
      obtain ⟨hb, hmissing⟩ := List.forall_mem_cons.mp hmissing
      exact Or.inr ⟨hb, before, after, rfl, hmissing⟩
  · rintro (rfl | ⟨hq, before, after, rfl, hmissing⟩)
    · exact ⟨[], ps, rfl, by simp⟩
    · exact ⟨q :: before, after, rfl, List.forall_mem_cons.mpr ⟨hq, hmissing⟩⟩

instance decidableReaches (r : Resolver) (p : Path) : (ps : List Path) → Decidable (r.Reaches ps p)
  | [] => isFalse not_reaches_nil
  | _ :: ps =>
    have := r.decidableReaches p ps
    decidable_of_iff _ reaches_cons_iff.symm

/-- Where there is nothing at the paths looked at so far, it is as if one began with the next. -/
theorem firstPresent?_append (before after : List Path)
    (h : ∀ q ∈ before, r.probe.present q = .ok false) :
    r.firstPresent? (before ++ after) = r.firstPresent? after := by
  induction before with
  | nil => rfl
  | cons q before ih =>
    obtain ⟨hq, hmissing⟩ := List.forall_mem_cons.mp h
    rw [List.cons_append, firstPresent?, hq]
    exact ih hmissing

theorem firstPresent?_of_missing (h : ∀ p ∈ ps, r.probe.present p = .ok false) :
    r.firstPresent? ps = .ok none := by
  have happend := firstPresent?_append ps [] h
  rwa [List.append_nil] at happend

theorem firstPresent?_of_present (h : r.Reaches ps p) (hp : r.probe.present p = .ok true) :
    r.firstPresent? ps = .ok (some p) := by
  obtain ⟨before, after, rfl, hmissing⟩ := h
  rw [firstPresent?_append before _ hmissing, firstPresent?, hp]

theorem firstPresent?_of_fault {f : FileSystem.Fault} (h : r.Reaches ps p)
    (hp : r.probe.present p = .error f) : r.firstPresent? ps = .error ⟨p, f⟩ := by
  obtain ⟨before, after, rfl, hmissing⟩ := h
  rw [firstPresent?_append before _ hmissing, firstPresent?, hp]

theorem missing_or_reaches (r : Resolver) (ps : List Path) :
    (∀ p ∈ ps, r.probe.present p = .ok false) ∨
      ∃ p, r.Reaches ps p ∧ r.probe.present p ≠ .ok false := by
  induction ps with
  | nil => exact Or.inl (by simp)
  | cons q ps ih =>
    by_cases hq : r.probe.present q = .ok false
    · obtain hmissing | ⟨p, hreach, hp⟩ := ih
      · exact Or.inl (List.forall_mem_cons.mpr ⟨hq, hmissing⟩)
      · exact Or.inr ⟨p, reaches_cons_iff.mpr (Or.inr ⟨hq, hreach⟩), hp⟩
    · exact Or.inr ⟨q, reaches_cons_iff.mpr (Or.inl rfl), hq⟩

/-- What a search comes to: nothing, a path that is there, or a path that the disk cannot be asked
about. -/
theorem firstPresent?_cases (r : Resolver) (ps : List Path) :
    (r.firstPresent? ps = .ok none ∧ ∀ p ∈ ps, r.probe.present p = .ok false) ∨
    (∃ p, r.firstPresent? ps = .ok (some p) ∧ r.Reaches ps p ∧ r.probe.present p = .ok true) ∨
    ∃ p f, r.firstPresent? ps = .error ⟨p, f⟩ ∧ r.Reaches ps p ∧ r.probe.present p = .error f := by
  obtain hmissing | ⟨p, hreach, hp⟩ := missing_or_reaches r ps
  · exact Or.inl ⟨firstPresent?_of_missing hmissing, hmissing⟩
  · cases hanswer : r.probe.present p with
    | error f =>
      exact Or.inr (Or.inr ⟨p, f, firstPresent?_of_fault hreach hanswer, hreach, hanswer⟩)
    | ok isThere =>
      cases isThere with
      | true => exact Or.inr (Or.inl ⟨p, firstPresent?_of_present hreach hanswer, hreach, hanswer⟩)
      | false => exact absurd hanswer hp

theorem firstPresent?_eq_none_iff :
    r.firstPresent? ps = .ok none ↔ ∀ p ∈ ps, r.probe.present p = .ok false := by
  refine ⟨fun h => ?_, firstPresent?_of_missing⟩
  obtain ⟨-, hmissing⟩ | ⟨p, hfirst, -⟩ | ⟨p, f, hfirst, -⟩ := r.firstPresent?_cases ps
  · exact hmissing
  · cases hfirst.symm.trans h
  · cases hfirst.symm.trans h

theorem firstPresent?_eq_some_iff :
    r.firstPresent? ps = .ok (some p) ↔ r.Reaches ps p ∧ r.probe.present p = .ok true := by
  refine ⟨fun h => ?_, fun ⟨hreach, hp⟩ => firstPresent?_of_present hreach hp⟩
  obtain ⟨hfirst, -⟩ | ⟨q, hfirst, hq⟩ | ⟨q, f, hfirst, -⟩ := r.firstPresent?_cases ps
  · cases hfirst.symm.trans h
  · cases hfirst.symm.trans h
    exact hq
  · cases hfirst.symm.trans h

theorem firstPresent?_eq_error_iff (e : ResolveError) :
    r.firstPresent? ps = .error e ↔
      r.Reaches ps e.path ∧ r.probe.present e.path = .error e.fault := by
  refine ⟨fun h => ?_, fun ⟨hreach, hp⟩ => firstPresent?_of_fault hreach hp⟩
  obtain ⟨hfirst, -⟩ | ⟨q, hfirst, -⟩ | ⟨q, f, hfirst, hq⟩ := r.firstPresent?_cases ps
  · cases hfirst.symm.trans h
  · cases hfirst.symm.trans h
  · cases hfirst.symm.trans h
    exact hq

/-- Only the answers for paths that are looked at make a difference. -/
theorem firstPresent?_congr
    (h : ∀ p, r.Reaches ps p → probe.present p = r.probe.present p) :
    firstPresent? { r with probe } ps = r.firstPresent? ps := by
  induction ps with
  | nil => rfl
  | cons q ps ih =>
    have hq : probe.present q = r.probe.present q := h q (reaches_cons_iff.mpr (Or.inl rfl))
    rw [firstPresent?, firstPresent?]
    dsimp only
    rw [hq]
    cases hp : r.probe.present q with
    | error e => rfl
    | ok isThere =>
      cases isThere with
      | true => rfl
      | false => exact ih fun p hreach => h p (reaches_cons_iff.mpr (Or.inr ⟨hp, hreach⟩))

variable {source resolved : String} {file : Path}

theorem lint_of_relative (h : r.resolve source file false = .ok resolved)
    (ha : (Path.ofString resolved).isAbsolute = false) :
    r.lint source file = .ok ⟨false, none⟩ := by
  rw [lint, h]
  simp [bind, Except.bind, pure, Except.pure, ha]

/-- For an import that is resolved to an absolute path, what is found is what the search comes
to. -/
theorem lint_of_absolute (h : r.resolve source file false = .ok resolved)
    (ha : (Path.ofString resolved).isAbsolute = true) :
    r.lint source file = (r.firstPresent? (candidates resolved)).map fun p? =>
      ⟨p?.isSome, some (p?.getD (.ofString resolved))⟩ := by
  rw [lint, h]
  cases hfirst : r.firstPresent? (candidates resolved) with
  | error e => simp [bind, Except.bind, Except.map, ha, hfirst]
  | ok p? => cases p? <;> simp [bind, Except.bind, pure, Except.pure, Except.map, ha, hfirst]

theorem lint_eq_missing_iff (h : r.resolve source file false = .ok resolved)
    (ha : (Path.ofString resolved).isAbsolute = true) :
    r.lint source file = .ok ⟨false, some (.ofString resolved)⟩ ↔
      ∀ p ∈ candidates resolved, r.probe.present p = .ok false := by
  rw [lint_of_absolute h ha, map_eq_ok_iff, ← firstPresent?_eq_none_iff]
  constructor
  · rintro ⟨p?, hfirst, hfinding⟩
    cases p? with
    | none => exact hfirst
    | some p => cases hfinding
  · exact fun hfirst => ⟨none, hfirst, rfl⟩

theorem lint_eq_found_iff (h : r.resolve source file false = .ok resolved)
    (ha : (Path.ofString resolved).isAbsolute = true) :
    r.lint source file = .ok ⟨true, some p⟩ ↔
      r.Reaches (candidates resolved) p ∧ r.probe.present p = .ok true := by
  rw [lint_of_absolute h ha, map_eq_ok_iff, ← firstPresent?_eq_some_iff]
  constructor
  · rintro ⟨p?, hfirst, hfinding⟩
    cases p? with
    | none => cases hfinding
    | some q =>
      cases hfinding
      exact hfirst
  · exact fun hfirst => ⟨some p, hfirst, rfl⟩

theorem lint_eq_error_iff (h : r.resolve source file false = .ok resolved)
    (ha : (Path.ofString resolved).isAbsolute = true) (e : ResolveError) :
    r.lint source file = .error e ↔
      r.Reaches (candidates resolved) e.path ∧ r.probe.present e.path = .error e.fault := by
  rw [lint_of_absolute h ha, map_eq_error_iff, firstPresent?_eq_error_iff]

theorem path_of_found {finding : Finding} (h : r.resolve source file false = .ok resolved)
    (hlint : r.lint source file = .ok finding) (hfound : finding.found = true) :
    ∃ p, finding.path = some p ∧ r.probe.present p = .ok true := by
  cases ha : (Path.ofString resolved).isAbsolute with
  | false =>
    rw [lint_of_relative h ha] at hlint
    cases hlint
    cases hfound
  | true =>
    obtain ⟨p?, hfirst, rfl⟩ := (map_eq_ok_iff _ _ _).mp ((lint_of_absolute h ha).symm.trans hlint)
    cases p? with
    | none => cases hfound
    | some p => exact ⟨p, rfl, (firstPresent?_eq_some_iff.mp hfirst).2⟩

/-- An import leads to the first path that there is something at. A path that an import is resolved
to is looked at as it is written, and then without the slashes at its end but with each of seven
extensions; the first of these for which the answer is not that nothing is there decides, by being
found or by a fault, and no path behind it has a say. If nothing is at any of them, the resolved
path is what is missed. An import that is not resolved to an absolute path is not looked for. -/
theorem lint_first_present (r : Resolver) (source : String) (file : Path) (resolved : String)
    (h : r.resolve source file false = .ok resolved) :
    ((Path.ofString resolved).isAbsolute = false → r.lint source file = .ok ⟨false, none⟩) ∧
    ((Path.ofString resolved).isAbsolute = true →
      let stem := resolved.toList.rdropWhile (· = '/')
      let tried := Path.ofString resolved ::
        ["js", "jsx", "ts", "tsx", "mjs", "cjs", "json"].map fun e =>
          .ofChars (stem ++ '.' :: e.toList)
      (r.lint source file = .ok ⟨false, some (.ofString resolved)⟩ ↔
        ∀ p ∈ tried, r.probe.present p = .ok false) ∧
      (∀ p, r.lint source file = .ok ⟨true, some p⟩ ↔
        r.Reaches tried p ∧ r.probe.present p = .ok true) ∧
      (∀ e, r.lint source file = .error e ↔
        r.Reaches tried e.path ∧ r.probe.present e.path = .error e.fault) ∧
      ∀ probe, resolve { r with probe } source file false = .ok resolved →
        (∀ p, r.Reaches tried p → probe.present p = r.probe.present p) →
        lint { r with probe } source file = r.lint source file) ∧
    ∀ finding, r.lint source file = .ok finding → finding.found = true →
      ∃ p, finding.path = some p ∧ r.probe.present p = .ok true := by
  refine ⟨lint_of_relative h, fun ha => ?_, fun _ => path_of_found h⟩
  intro stem tried
  have htried : candidates resolved = tried := rfl
  rw [← htried]
  refine ⟨lint_eq_missing_iff h ha, fun _ => lint_eq_found_iff h ha, lint_eq_error_iff h ha, ?_⟩
  intro probe hprobe hanswers
  rw [lint_of_absolute hprobe ha, lint_of_absolute h ha, firstPresent?_congr hanswers]

def oneFile : Resolver where
  settings := { resolveLinks := false }
  packages := [⟨some "a", .ofString "/r/a", "src", none, "src", "~"⟩]
  probe :=
    { realPath := fun _ => .ok none
      present := fun p =>
        if p = .ofString "/r/a/src/util.ts" then .ok true
        else if p = .ofString "/r/a/src/util.tsx" then .error (.refused "timed out")
        else .ok false }

def twoFiles : Probe where
  realPath := fun _ => .ok none
  present := fun p =>
    if p = .ofString "/r/a/src/util.tsx" then .ok true else oneFile.probe.present p

/-- The path that nothing is said about is behind the file for one import, where it makes no
difference, and in front of all for another. The root is looked at, and so is an absolute path that
names no package; the name of a module is not. -/
theorem lint_first_present_oneFile :
    oneFile.resolve "~/util//" (.ofString "/r/a/f.js") false = .ok "/r/a/src/util/" ∧
    oneFile.lint "~/util//" (.ofString "/r/a/f.js") =
      .ok ⟨true, some (.ofString "/r/a/src/util.ts")⟩ ∧
    oneFile.probe.present (.ofString "/r/a/src/util.ts") = .ok true ∧
    lint { oneFile with probe := twoFiles } "~/util//" (.ofString "/r/a/f.js") =
      oneFile.lint "~/util//" (.ofString "/r/a/f.js") ∧
    oneFile.resolve "./src/util.tsx" (.ofString "/r/a/f.js") false = .ok "/r/a/src/util.tsx" ∧
    oneFile.lint "./src/util.tsx" (.ofString "/r/a/f.js") =
      .error ⟨.ofString "/r/a/src/util.tsx", .refused "timed out"⟩ ∧
    oneFile.resolve "../../" (.ofString "/r/a/f.js") false = .ok "/" ∧
    oneFile.lint "../../" (.ofString "/r/a/f.js") = .ok ⟨false, some (.ofString "/")⟩ ∧
    oneFile.resolve "/r/a/src/util" (.ofString "/r/a/f.js") false = .ok "/r/a/src/util" ∧
    oneFile.lint "/r/a/src/util" (.ofString "/r/a/f.js") =
      .ok ⟨true, some (.ofString "/r/a/src/util.ts")⟩ ∧
    oneFile.resolve "react" (.ofString "/r/a/f.js") false = .ok "react" ∧
    oneFile.lint "react" (.ofString "/r/a/f.js") = .ok ⟨false, none⟩ := by
  have hutil : oneFile.resolve "~/util//" (.ofString "/r/a/f.js") false = .ok "/r/a/src/util/" := by
    decide
  have hfault : oneFile.resolve "./src/util.tsx" (.ofString "/r/a/f.js") false =
      .ok "/r/a/src/util.tsx" := by decide
  have hroot : oneFile.resolve "../../" (.ofString "/r/a/f.js") false = .ok "/" := by decide
  have habsolute : oneFile.resolve "/r/a/src/util" (.ofString "/r/a/f.js") false =
      .ok "/r/a/src/util" := by decide
  have hmodule : oneFile.resolve "react" (.ofString "/r/a/f.js") false = .ok "react" := by decide
  obtain ⟨-, hlooked, hthere⟩ := lint_first_present _ _ _ _ hutil
  obtain ⟨-, hfound, -, hanswers⟩ := hlooked (by decide)
  have hfile := (hfound (.ofString "/r/a/src/util.ts")).mpr (by decide)
  obtain ⟨p, hp, hpresent⟩ := hthere _ hfile rfl
  cases hp
  refine ⟨hutil, hfile, hpresent, hanswers twoFiles (by decide) ?_, hfault, ?_, hroot, ?_,
    habsolute,
    ?_, hmodule, (lint_first_present _ _ _ _ hmodule).1 (by decide)⟩
  · intro p hreach
    refine if_neg fun hp => ?_
    rw [hp] at hreach
    exact absurd hreach (by decide)
  · exact (((lint_first_present _ _ _ _ hfault).2.1 (by decide)).2.2.1 _).mpr (by decide)
  · exact (((lint_first_present _ _ _ _ hroot).2.1 (by decide)).1).mpr (by decide)
  · exact (((lint_first_present _ _ _ _ habsolute).2.1 (by decide)).2.1 _).mpr (by decide)

end Monorepo.Resolver
