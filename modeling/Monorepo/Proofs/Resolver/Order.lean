import Mathlib.Data.List.Basic
import Monorepo.Proofs.Resolver.Destination

/-! The order of packages. Look-ups take the first match; where packages lie apart there is at most
one, and the place of a package in the list says no more than the package itself. -/
namespace Monorepo

/-- A search with at most one hit finds it in any order. -/
theorem findSome?_perm {α β : Type*} (f : α → Option β) (l l' : List α) (hp : l.Perm l')
    (hu : l.Pairwise fun a b => f a = none ∨ f b = none) : l.findSome? f = l'.findSome? f := by
  induction hp with
  | nil => rfl
  | cons x _ ih =>
    rw [List.findSome?_cons, List.findSome?_cons, ih (List.pairwise_cons.mp hu).2]
  | swap x y l =>
    have hxy := (List.pairwise_cons.mp hu).1 x (by simp)
    simp only [List.findSome?_cons]
    obtain h | h := hxy
    · rw [h]
    · rw [h]
  | trans h _ ih₁ ih₂ => exact (ih₁ hu).trans (ih₂ (h.pairwise hu Or.symm))

/-- A name covers another if it is that name, or goes on to it behind a slash. The empty name covers
none. -/
def NameCovers (m n : Option String) : Prop :=
  ∃ s t, m = some s ∧ n = some t ∧ s ≠ "" ∧ (t = s ∨ ∃ rest, t = s ++ "/" ++ rest)

def Apart (m n : Option String) (p q : Path) : Prop :=
  p.isWithin q = false ∧ q.isWithin p = false ∧ ¬ NameCovers m n ∧ ¬ NameCovers n m

theorem Apart.symm {m n : Option String} {p q : Path} (h : Apart m n p q) : Apart n m q p :=
  ⟨h.2.1, h.1, h.2.2.2, h.2.2.1⟩

theorem nameCovers_iff (m n : Option String) :
    NameCovers m n ↔
      (stripToken? (n.getD "").toList (m.getD "").toList).isSome = true := by
  rw [← isInFront_iff]
  constructor
  · rintro ⟨s, t, rfl, rfl, h⟩
    exact h
  · intro h
    cases m with
    | none => exact absurd rfl h.1
    | some s =>
      cases n with
      | none => exact absurd (by simpa using h.isPrefix) h.1
      | some t => exact ⟨s, t, rfl, rfl, h⟩

instance (m n : Option String) : Decidable (NameCovers m n) :=
  decidable_of_iff _ (nameCovers_iff m n).symm

instance (m n : Option String) (p q : Path) : Decidable (Apart m n p q) :=
  inferInstanceAs (Decidable (_ ∧ _))

/-- Roots that lie apart hold no path in common. -/
theorem Apart.isWithin_eq_false {m n : Option String} {p q : Path} (h : Apart m n p q)
    (path : Path) : path.isWithin p = false ∨ path.isWithin q = false := by
  by_contra hc
  simp only [not_or, Bool.not_eq_false, Path.isWithin, List.isPrefixOf_iff_prefix] at hc
  obtain hpq | hqp := List.prefix_or_prefix_of_prefix hc.1 hc.2
  · have hw : q.isWithin p = true := List.isPrefixOf_iff_prefix.mpr hpq
    rw [h.2.1] at hw
    cases hw
  · have hw : p.isWithin q = true := List.isPrefixOf_iff_prefix.mpr hqp
    rw [h.1] at hw
    cases hw

theorem Apart.stripToken?_eq_none {m n : Option String} {p q : Path} (h : Apart m n p q)
    (target : List Char) :
    stripToken? target (m.getD "").toList = none ∨
      stripToken? target (n.getD "").toList = none := by
  cases hm : stripToken? target (m.getD "").toList with
  | none => exact Or.inl rfl
  | some u =>
    cases hn : stripToken? target (n.getD "").toList with
    | none => exact Or.inr rfl
    | some v =>
      obtain hs | hs := stripToken?_comparable target _ _ u v hm hn
      · exact absurd ((nameCovers_iff _ _).mpr hs) h.2.2.1
      · exact absurd ((nameCovers_iff _ _).mpr hs) h.2.2.2

theorem Apart.ne {m n : Option String} {p q : Path} (h : Apart m n p q) : p ≠ q := by
  rintro rfl
  have hw : p.isWithin p = true := List.isPrefixOf_iff_prefix.mpr (List.prefix_refl _)
  rw [h.1] at hw
  cases hw

namespace Resolver

def Scattered (r : Resolver) : Prop :=
  r.packages.Pairwise fun p q => Apart p.name q.name p.root q.root

def holder? (r : Resolver) (path : Path) : Option Package := (r.packageOf? path).map (·.1)

def named? (r : Resolver) (target : List Char) : Option (Package × List Char) :=
  (r.packageNamed? target).map fun (p, _, rest) => (p, rest)

theorem holder?_eq (r : Resolver) (path : Path) :
    r.holder? path = r.packages.findSome? (Option.guard fun p => path.isWithin p.root) := by
  have hz : r.packages = (r.packages.zipIdx).map Prod.fst := (List.zipIdx_map_fst 0 _).symm
  rw [← List.find?_eq_findSome?_guard]
  conv_rhs => rw [hz]
  rw [List.find?_map]
  rfl

theorem named?_eq (r : Resolver) (target : List Char) :
    r.named? target = r.packages.findSome? fun p =>
      (stripToken? target (p.name.getD "").toList).map fun rest => (p, rest) := by
  have hz : r.packages = (r.packages.zipIdx).map Prod.fst := (List.zipIdx_map_fst 0 _).symm
  conv_rhs => rw [hz]
  rw [List.findSome?_map, named?, packageNamed?, List.map_findSome?]
  congr 1
  funext x
  simp [Option.map_map, Function.comp_def]

theorem holder?_perm (r r' : Resolver) (hp : r.packages.Perm r'.packages) (ha : r.Scattered)
    (path : Path) : r.holder? path = r'.holder? path := by
  rw [holder?_eq, holder?_eq]
  refine findSome?_perm _ _ _ hp (ha.imp ?_)
  intro p q h
  simpa [Option.guard] using h.isWithin_eq_false path

theorem named?_perm (r r' : Resolver) (hp : r.packages.Perm r'.packages) (ha : r.Scattered)
    (target : List Char) : r.named? target = r'.named? target := by
  rw [named?_eq, named?_eq]
  refine findSome?_perm _ _ _ hp (ha.imp ?_)
  intro p q h
  simpa using h.stripToken?_eq_none target

/-- Where packages lie apart, two places hold the same package just when they are one place. -/
theorem any_slot_iff_holder? (r : Resolver) (ha : r.Scattered) (path : Path) (p : Package)
    (n : Nat) (hn : r.packages[n]? = some p) :
    (r.packageOf? path).any (·.2 == n) = true ↔ r.holder? path = some p := by
  have hd : r.packages.Nodup := ha.imp fun h he => h.ne (congrArg Package.root he)
  rw [any_slot_eq_true_iff, holder?]
  constructor
  · rintro ⟨o, ho⟩
    have hm := (r.packageOf?_some path o n ho).1
    rw [hn] at hm
    cases hm
    rw [ho]
    rfl
  · intro h
    obtain ⟨⟨o, m⟩, ho, rfl⟩ := Option.map_eq_some_iff.mp h
    have hm := (r.packageOf?_some path o m ho).1
    have he : m = n := (List.getElem?_inj (List.getElem?_eq_some_iff.mp hm).1 hd).mp
      (hm.trans hn.symm)
    exact ⟨o, he ▸ ho⟩

theorem modulePath?_eq (r : Resolver) (ha : r.Scattered) (path : Path) (target : List Char) :
    r.modulePath? (r.packageOf? path) target =
      match r.named? target with
      | none => .ok none
      | some (p, rest) =>
        if r.holder? path = some p then .ok none
        else match r.probe.present (directCandidate p (trimSlashes rest)) with
          | .error e => .error ⟨directCandidate p (trimSlashes rest), e⟩
          | .ok isThere => .ok (r.packagePath? p (trimSlashes rest) isThere) := by
  unfold modulePath? named?
  cases hn : r.packageNamed? target with
  | none => rfl
  | some x =>
    obtain ⟨p, n, rest⟩ := x
    have hs := r.any_slot_iff_holder? ha path p n (r.packageNamed?_some target p n rest hn).1
    rw [Option.map_some]
    dsimp only
    by_cases hh : r.holder? path = some p
    · rw [if_pos (hs.mpr hh), if_pos hh]
    · exact (if_neg fun h => hh (hs.mp h)).trans (if_neg hh).symm

theorem answer_perm (r r' : Resolver) (hs : r.settings = r'.settings) (hb : r.probe = r'.probe)
    (hp : r.packages.Perm r'.packages) (ha : r.Scattered) (target : String) (origin : Path)
    (relative : Bool) :
    r.answer target origin relative = r'.answer target origin relative := by
  have ha' : r'.Scattered := hp.pairwise ha Apart.symm
  have hf : r.realFile origin = r'.realFile origin := by
    rw [realFile_eq, realFile_eq, hs, hb]
  have hd (real : Path) : r.destination? target real = r'.destination? target real := by
    have hh : (r.packageOf? real).map (·.1) = (r'.packageOf? real).map (·.1) :=
      holder?_perm r r' hp ha real
    have hm : r.modulePath? (r.packageOf? real) target.toList =
        r'.modulePath? (r'.packageOf? real) target.toList := by
      rw [modulePath?_eq r ha, modulePath?_eq r' ha', named?_perm r r' hp ha,
        holder?_perm r r' hp ha, hb]
      unfold packagePath?
      rw [hs]
    unfold destination? specifierAt
    rw [hh, hs, hm]
  unfold answer
  rw [hf]
  simp only [hd]

/-- The order in which packages are configured does not matter where they lie apart. -/
theorem resolve_perm (settings : Settings) (probe : Probe) (a b : Registry)
    (hp : a.packages.Perm b.packages)
    (ha : a.packages.Pairwise fun d e => Apart d.name e.name d.root e.root)
    (target : String) (origin : Path) (relative : Bool) :
    (ofRegistry settings a probe).resolve target origin relative =
      (ofRegistry settings b probe).resolve target origin relative := by
  rw [resolve_eq_answer, resolve_eq_answer]
  have hq : (ofRegistry settings a probe).packages.Perm (ofRegistry settings b probe).packages :=
    hp.map _
  have hd : (ofRegistry settings a probe).Scattered := List.pairwise_map.mpr ha
  exact answer_perm (ofRegistry settings a probe) (ofRegistry settings b probe) rfl rfl hq hd
    target origin relative

def threePackages : Registry :=
  ⟨[{ name := some "a", root := .ofString "/r/a" },
    { name := some "ab", root := .ofString "/r/ab" },
    { root := .ofString "/r/c" }]⟩

theorem resolve_perm_threePackages :
    threePackages.packages.Perm threePackages.packages.reverse ∧
    (threePackages.packages.Pairwise fun d e => Apart d.name e.name d.root e.root) ∧
    (ofRegistry {} threePackages ⟨fun _ => .ok none, fun _ => .ok false⟩).resolve "ab/x"
        (.ofString "/r/a/src/f.js") true =
      (ofRegistry {} ⟨threePackages.packages.reverse⟩
        ⟨fun _ => .ok none, fun _ => .ok false⟩).resolve "ab/x"
        (.ofString "/r/a/src/f.js") true := by
  have hp : threePackages.packages.Perm threePackages.packages.reverse :=
    (List.reverse_perm _).symm
  have ha : threePackages.packages.Pairwise fun d e => Apart d.name e.name d.root e.root := by
    decide
  exact ⟨hp, ha, resolve_perm {} _ threePackages ⟨_⟩ hp ha _ _ _⟩

end Resolver
end Monorepo
