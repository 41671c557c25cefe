import Monorepo.Proofs.Specifier
import Monorepo.Resolver.Basic

/-! What a resolution comes to, apart from what is taken down on the way: the file behind the links,
the path for a specifier, and its spelling. Resolutions with and without a record come to this. -/
namespace Monorepo
namespace Resolver

theorem packageOf?_some (r : Resolver) (q : Path) (p : Package) (n : Nat)
    (h : r.packageOf? q = some (p, n)) :
    r.packages[n]? = some p ∧ q.isWithin p.root = true := by
  have hm := List.mem_of_find?_eq_some h
  have hw := List.find?_some h
  exact ⟨List.mk_mem_zipIdx_iff_getElem?.mp hm, hw⟩

theorem packageNamed?_some (r : Resolver) (target : List Char) (p : Package) (n : Nat)
    (rest : List Char) (h : r.packageNamed? target = some (p, n, rest)) :
    r.packages[n]? = some p ∧ stripToken? target (p.name.getD "").toList = some rest := by
  obtain ⟨⟨q, m⟩, hm, hs⟩ := List.exists_of_findSome?_eq_some h
  obtain ⟨rest', hr, he⟩ := Option.map_eq_some_iff.mp hs
  cases he
  exact ⟨List.mk_mem_zipIdx_iff_getElem?.mp hm, hr⟩

theorem mem_of_packageOf? {r : Resolver} {q : Path} {p : Package} {n : Nat}
    (h : r.packageOf? q = some (p, n)) : p ∈ r.packages :=
  List.mem_of_getElem? (r.packageOf?_some q p n h).1

theorem mem_of_packageNamed? {r : Resolver} {target : List Char} {p : Package} {n : Nat}
    {rest : List Char} (h : r.packageNamed? target = some (p, n, rest)) : p ∈ r.packages :=
  List.mem_of_getElem? (r.packageNamed?_some target p n rest h).1

theorem packageNamed?_eq_none_iff {r : Resolver} {target : String} :
    r.packageNamed? target.toList = none ↔
      ∀ q ∈ r.packages, ¬ IsInFront (q.name.getD "") target := by
  simp only [packageNamed?, List.findSome?_eq_none_iff, Option.map_eq_none_iff,
    stripToken?_eq_none_iff]
  constructor
  · intro h q hq
    obtain ⟨m, hm⟩ := List.mem_iff_getElem?.mp hq
    exact h (q, m) (List.mk_mem_zipIdx_iff_getElem?.mpr hm)
  · rintro h ⟨q, m⟩ hq
    exact h q (List.mem_of_getElem? (List.mk_mem_zipIdx_iff_getElem?.mp hq))

def realFile (r : Resolver) (origin : Path) : Except ResolveError Path :=
  (r.realOrigin .off origin).map (·.1)

def sourcesPath (p : Package) (rest : List Char) : Path :=
  (p.sourceDir.join (.ofChars (trimSlashes rest))).normalize

def packagePath? (r : Resolver) (p : Package) (rest : List Char) (isThere : Bool) : Option Path :=
  if r.settings.resolveEntries ∧ rest = [] then some (p.entryDir r.settings.mode).normalize
  else if isThere then some (directCandidate p rest)
  else if r.settings.resolvePackages then
    some ((p.packageDir r.settings.mode).join (.ofChars rest)).normalize
  else none

def modulePath? (r : Resolver) (origin? : Option (Package × Nat)) (target : List Char) :
    Except ResolveError (Option Path) :=
  match r.packageNamed? target with
  | none => .ok none
  | some (p, n, rest) =>
    if origin?.any (·.2 == n) then .ok none
    else match r.probe.present (directCandidate p (trimSlashes rest)) with
      | .error e => .error ⟨directCandidate p (trimSlashes rest), e⟩
      | .ok isThere => .ok (r.packagePath? p (trimSlashes rest) isThere)

def specifierAt (r : Resolver) (target : String) (real : Path) : Specifier :=
  Specifier.classify r.settings ((r.packageOf? real).map (·.1)) target

/-- The path that `target` stands for in the file `real`, if it is not left as it is. -/
def destination? (r : Resolver) (target : String) (real : Path) :
    Except ResolveError (Option Path) :=
  match r.specifierAt target real with
  | .relative => .ok (some (.ofString target))
  | .aliased p rest => .ok (some (sourcesPath p rest))
  | .ownName p rest => .ok (some (sourcesPath p rest))
  | .module => r.modulePath? (r.packageOf? real) target.toList

/-- Nothing stands for `target` in the file `real`. It is a module, and no package has its name, or
the file's own package has, or nothing is there and nothing is to be put in its place. -/
def PassesThrough (r : Resolver) (target : String) (real : Path) : Prop :=
  r.specifierAt target real = .module ∧
  match r.packageNamed? target.toList with
  | none => True
  | some (p, n, rest) =>
    (∃ o, r.packageOf? real = some (o, n)) ∨
    (¬ (∃ o, r.packageOf? real = some (o, n)) ∧
      r.probe.present (directCandidate p (trimSlashes rest)) = .ok false ∧
      r.settings.resolvePackages = false ∧
      ¬ (r.settings.resolveEntries = true ∧ trimSlashes rest = []))

def write (target : String) (real : Path) (relative : Bool) : Option Path → String
  | none => target
  | some path => String.ofList (spell target.toList path (originDir real) relative)

def answer (r : Resolver) (target : String) (origin : Path) (relative : Bool) :
    Except ResolveError String := do
  let real ← r.realFile origin
  let path? ← r.destination? target real
  return write target real relative path?

theorem any_slot_eq_true_iff (o? : Option (Package × Nat)) (n : Nat) :
    o?.any (·.2 == n) = true ↔ ∃ o, o? = some (o, n) := by
  cases o? with
  | none => simp
  | some x =>
    obtain ⟨o, m⟩ := x
    simp

theorem packagePath?_eq_none_iff (r : Resolver) (p : Package) (rest : List Char)
    (isThere : Bool) :
    r.packagePath? p rest isThere = none ↔
      isThere = false ∧ r.settings.resolvePackages = false ∧
        ¬ (r.settings.resolveEntries = true ∧ rest = []) := by
  rw [packagePath?]
  split_ifs with he ht hp <;> simp_all

/-- Where a module specifier leads that names a package other than the file's own. -/
theorem destination?_of_named {r : Resolver} {target : String} {real : Path} {p : Package} {n : Nat}
    {rest : List Char} (hs : r.specifierAt target real = .module)
    (hn : r.packageNamed? target.toList = some (p, n, rest))
    (hother : ¬ ∃ o, r.packageOf? real = some (o, n)) :
    r.destination? target real =
      match r.probe.present (directCandidate p (trimSlashes rest)) with
      | .error e => .error ⟨directCandidate p (trimSlashes rest), e⟩
      | .ok isThere => .ok (r.packagePath? p (trimSlashes rest) isThere) := by
  have hslot := mt (any_slot_eq_true_iff (r.packageOf? real) n).mp hother
  rw [destination?, hs]
  dsimp only [modulePath?]
  rw [hn]
  exact if_neg hslot

/-- There is no destination just where a specifier passes through. -/
theorem destination?_eq_none_iff (r : Resolver) (target : String) (real : Path) :
    r.destination? target real = .ok none ↔ r.PassesThrough target real := by
  unfold PassesThrough
  cases hs : r.specifierAt target real with
  | relative => simp [destination?, hs]
  | aliased p rest => simp [destination?, hs]
  | ownName p rest => simp [destination?, hs]
  | module =>
    cases hn : r.packageNamed? target.toList with
    | none => simp [destination?, modulePath?, hs, hn]
    | some x =>
      obtain ⟨p, n, rest⟩ := x
      by_cases hown : ∃ o, r.packageOf? real = some (o, n)
      · have hslot := (any_slot_eq_true_iff (r.packageOf? real) n).mpr hown
        simp [destination?, modulePath?, hs, hn, hslot, hown]
      · rw [destination?_of_named hs hn hown]
        dsimp only
        cases r.probe.present (directCandidate p (trimSlashes rest)) with
        | error e => simp [hown]
        | ok isThere =>
          have hp := r.packagePath?_eq_none_iff p (trimSlashes rest) isThere
          simp only [Except.ok.injEq, hp, hown, true_and, false_or, not_false_eq_true]

variable (r : Resolver) (log : Recorder)

theorem map_fst_realOrigin_eq (origin : Path) :
    (r.realOrigin log origin).map (·.1) =
      if r.settings.resolveLinks = true then
        match r.probe.realPath origin.normalize with
        | .error e => .error ⟨origin.normalize, e⟩
        | .ok real? => .ok (real?.getD origin.normalize)
      else .ok origin.normalize := by
  simp only [realOrigin]
  by_cases hl : r.settings.resolveLinks = true
  · rw [if_neg (by simp [hl]), if_pos hl]
    cases r.probe.realPath origin.normalize with
    | error e => rfl
    | ok real? => cases real? <;> rfl
  · rw [if_pos hl, if_neg hl]
    rfl

theorem map_fst_realOrigin (origin : Path) :
    (r.realOrigin log origin).map (·.1) = r.realFile origin := by
  rw [realFile, map_fst_realOrigin_eq, map_fst_realOrigin_eq]

theorem realFile_eq (origin : Path) :
    r.realFile origin =
      if r.settings.resolveLinks = true then
        match r.probe.realPath origin.normalize with
        | .error e => .error ⟨origin.normalize, e⟩
        | .ok real? => .ok (real?.getD origin.normalize)
      else .ok origin.normalize :=
  r.map_fst_realOrigin_eq .off origin

theorem fst_intoEntry (p : Package) (rest : List Char) (isThere : Bool) :
    (r.intoEntry log p rest isThere).1 = r.packagePath? p rest isThere := by
  unfold intoEntry packagePath? intoPackage
  cases isThere <;> cases r.settings.resolvePackages <;>
    by_cases he : r.settings.resolveEntries = true ∧ rest = [] <;> simp [he]

theorem map_fst_intoModule (origin? : Option (Package × Nat)) (target : List Char) :
    (r.intoModule log origin? target).map (·.1) = r.modulePath? origin? target := by
  unfold intoModule modulePath?
  cases r.packageNamed? target with
  | none => rfl
  | some q =>
    obtain ⟨p, n, rest⟩ := q
    dsimp only
    split_ifs
    · rfl
    · cases r.probe.present (directCandidate p (trimSlashes rest)) with
      | error e => rfl
      | ok isThere =>
        exact congrArg Except.ok (r.fst_intoEntry log p (trimSlashes rest) isThere)

theorem map_fst_pathFor (target : String) (real : Path) :
    (r.pathFor log (r.packageOf? real) target (r.specifierAt target real)).map (·.1) =
      r.destination? target real := by
  rw [destination?]
  cases r.specifierAt target real with
  | relative => rfl
  | aliased p rest => rfl
  | ownName p rest => rfl
  | module => exact r.map_fst_intoModule log _ _

/-- Whatever is taken down, the answer is the same. -/
theorem map_resolved_run (target : String) (origin : Path) (relative : Bool) :
    (r.run log target origin relative).map (·.resolved) = r.answer target origin relative := by
  unfold run answer
  rw [← r.map_fst_realOrigin log origin]
  cases r.realOrigin log origin with
  | error e => rfl
  | ok x =>
    obtain ⟨real, opened⟩ := x
    have hp := r.map_fst_pathFor log target real
    unfold specifierAt at hp
    change Except.map _ (Except.bind (r.pathFor log _ target _) _) =
      Except.bind (r.destination? target real) _
    rw [← hp]
    cases r.pathFor log (r.packageOf? real) target
        (Specifier.classify r.settings ((r.packageOf? real).map (·.1)) target) with
    | error e => rfl
    | ok y =>
      obtain ⟨path?, mapped⟩ := y
      cases path? <;> rfl

theorem resolve_eq_answer (target : String) (origin : Path) (relative : Bool) :
    r.resolve target origin relative = r.answer target origin relative :=
  r.map_resolved_run .off target origin relative

variable {r} {target : String} {origin real : Path} {relative : Bool}

theorem resolve_of_realFile_error {e : ResolveError} (hf : r.realFile origin = .error e) :
    r.resolve target origin relative = .error e := by
  rw [resolve_eq_answer, answer, hf]
  rfl

theorem resolve_of_realFile (hf : r.realFile origin = .ok real) :
    r.resolve target origin relative =
      (r.destination? target real).map (write target real relative) := by
  rw [resolve_eq_answer, answer, hf]
  change Except.bind (r.destination? target real) _ = _
  cases r.destination? target real <;> rfl

theorem resolve_of_destination_error {e : ResolveError} (hf : r.realFile origin = .ok real)
    (hd : r.destination? target real = .error e) :
    r.resolve target origin relative = .error e := by
  rw [resolve_of_realFile hf, hd]
  rfl

theorem resolve_of_destination {path? : Option Path} (hf : r.realFile origin = .ok real)
    (hd : r.destination? target real = .ok path?) :
    r.resolve target origin relative = .ok (write target real relative path?) := by
  rw [resolve_of_realFile hf, hd]
  rfl

/-- Answers are told apart by the file behind the links, or by what the target stands for there. -/
theorem resolve_congr {r s : Resolver} {target : String} {origin origin' : Path} {relative : Bool}
    (hf : r.realFile origin = s.realFile origin')
    (hd : ∀ real, r.realFile origin = .ok real →
      r.destination? target real = s.destination? target real) :
    r.resolve target origin relative = s.resolve target origin' relative := by
  rw [resolve_eq_answer, resolve_eq_answer, answer, answer, ← hf]
  cases hr : r.realFile origin with
  | error e => rfl
  | ok real =>
    change (r.destination? target real >>= _) = (s.destination? target real >>= _)
    rw [hd real hr]

end Resolver
end Monorepo
