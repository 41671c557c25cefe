import Monorepo.Proofs.Path.Within
import Monorepo.Proofs.Resolver.Destination

/-! The package of a path. A path belongs to the first package that holds it, and so does every path
on the way down to it from the root of that package: a package in front that held one of those would
hold the path as well. -/
namespace Monorepo.Resolver
open Monorepo.Path

variable {r : Resolver} {origin q : Path} {p : Package} {n : Nat}

theorem packageOf?_eq_some_iff :
    r.packageOf? origin = some (p, n) ↔
      origin.isWithin p.root = true ∧
        ∃ before after, r.packages.zipIdx = before ++ (p, n) :: after ∧
        ∀ o ∈ before, origin.isWithin o.1.root = false := by
  rw [packageOf?, List.find?_eq_some_iff_append]
  simp only [Bool.not_eq_true']

theorem packageOf?_between (h : r.packageOf? origin = some (p, n))
    (hq : q.isWithin p.root = true) (ho : origin.isWithin q = true) :
    r.packageOf? q = some (p, n) := by
  obtain ⟨-, before, after, hsplit, hbefore⟩ := packageOf?_eq_some_iff.mp h
  refine packageOf?_eq_some_iff.mpr ⟨hq, before, after, hsplit, fun o hmem => ?_⟩
  rw [Bool.eq_false_iff]
  intro hheld
  have horigin := isWithin_trans ho hheld
  rw [hbefore o hmem] at horigin
  cases horigin

/-- One absolute path lies within another just if the way to it does not begin with a step up, and
then the way put behind the other path names it. Containment orders normal paths, and of two paths
that hold a third, one holds the other. So all that lies between a file and the root of the package
that it belongs to, both included, belongs to the same package at the same place among the
packages. -/
theorem containment_agrees :
    (∀ p base : Path, p.isAbsolute = true → base.isAbsolute = true →
      (p.normalize.isWithin base.normalize = true ↔
        (p.relativeTo base).components.head? ≠ some .parent) ∧
      (p.normalize.isWithin base.normalize = true ↔ (p.relativeTo base).startsWithDot = false) ∧
      (p.normalize.isWithin base.normalize = true ↔
        (base.normalize.join (p.relativeTo base)).denotesSame p.normalize = true)) ∧
    (∀ p : Path, p.isWithin p = true) ∧
    (∀ p q s : Path, p.isWithin q = true → q.isWithin s = true → p.isWithin s = true) ∧
    (∀ p q : Path, p.normalize = p → q.normalize = q →
      p.isWithin q = true → q.isWithin p = true → p = q) ∧
    (∀ p q s : Path, p.isWithin q = true → p.isWithin s = true →
      q.isWithin s = true ∨ s.isWithin q = true) ∧
    ∀ (r : Resolver) (origin : Path) (p : Package) (n : Nat), r.packageOf? origin = some (p, n) →
      origin.isWithin p.root = true ∧ r.packageOf? p.root = some (p, n) ∧
      ∀ q : Path, q.isWithin p.root = true → origin.isWithin q = true →
        r.packageOf? q = some (p, n) := by
  refine ⟨fun p base hp hb => ⟨?_, ?_, ?_⟩, isWithin_self, fun _ _ _ => isWithin_trans,
    fun _ _ => isWithin_antisymm, fun _ _ _ => isWithin_or_isWithin, ?_⟩
  · rw [ne_eq, head?_relativeTo hp hb, not_not]
  · rw [← Bool.not_eq_true, startsWithDot_relativeTo hp hb, not_not]
  · exact (denotesSame_join_relativeTo hp hb).symm
  · intro r origin p n h
    have hroot : origin.isWithin p.root = true := (packageOf?_some r origin p n h).2
    exact ⟨hroot, packageOf?_between h (isWithin_self p.root) hroot,
      fun q hq ho => packageOf?_between h hq ho⟩

def nestedRoots : Resolver where
  settings := {}
  packages := [⟨some "x", .ofString "/r/a/lib/x", "src", none, "src", "~"⟩,
    ⟨some "a", .ofString "/r/a", "src", none, "src", "~"⟩,
    ⟨some "all", .ofString "/r", "src", none, "src", "~"⟩]
  probe := ⟨fun _ => .ok none, fun _ => .ok false⟩

/-- A name that only begins like that of the root lies beside the root. -/
theorem containment_agrees_nestedRoots :
    (Path.ofString "/r/./a/lib//x/..").relativeTo (.ofString "/r//a/") = .ofString "lib" ∧
    (Path.ofString "/r/./a/lib//x/..").normalize.isWithin (Path.ofString "/r//a/").normalize =
      true ∧
    ((Path.ofString "/r//a/").normalize.join (.ofString "lib")).denotesSame
      (Path.ofString "/r/./a/lib//x/..").normalize = true ∧
    (Path.ofString "/r/ab/f.js").relativeTo (.ofString "/r/a") = .ofString "../ab/f.js" ∧
    ¬ (Path.ofString "/r/ab/f.js").normalize.isWithin (Path.ofString "/r/a").normalize = true ∧
    (Path.ofString "/r/a/lib/f.js").isWithin (.ofString "/r/") = true ∧
    (Path.ofString "/r/x/../a").normalize = .ofString "/r/a" ∧
    ((Path.ofString "/r/a").isWithin (.ofString "/r//a/lib") = true ∨
      (Path.ofString "/r//a/lib").isWithin (.ofString "/r/a") = true) ∧
    nestedRoots.packageOf? (.ofString "/r/a/lib/f.js") =
      some (⟨some "a", .ofString "/r/a", "src", none, "src", "~"⟩, 1) ∧
    nestedRoots.packageOf? (.ofString "/r/a") =
      some (⟨some "a", .ofString "/r/a", "src", none, "src", "~"⟩, 1) ∧
    nestedRoots.packageOf? (.ofString "/r//a/./lib/") =
      some (⟨some "a", .ofString "/r/a", "src", none, "src", "~"⟩, 1) := by
  obtain ⟨hway, -, htrans, hanti, hchain, hbetween⟩ := containment_agrees
  have hdown : (Path.ofString "/r/./a/lib//x/..").relativeTo (.ofString "/r//a/") =
      .ofString "lib" := by decide
  have hup : (Path.ofString "/r/ab/f.js").relativeTo (.ofString "/r/a") =
      .ofString "../ab/f.js" := by decide
  have hwithin : (Path.ofString "/r/./a/lib//x/..").normalize.isWithin
      (Path.ofString "/r//a/").normalize = true := by
    rw [(hway _ _ (by decide) (by decide)).1, hdown]
    decide
  have hjoin :=
    (hway (.ofString "/r/./a/lib//x/..") (.ofString "/r//a/") (by decide) (by decide)).2.2
  have hbeside : ¬ (Path.ofString "/r/ab/f.js").normalize.isWithin
      (Path.ofString "/r/a").normalize = true := by
    rw [(hway _ _ (by decide) (by decide)).2.1, hup]
    decide
  have hfile : nestedRoots.packageOf? (.ofString "/r/a/lib/f.js") =
      some (⟨some "a", .ofString "/r/a", "src", none, "src", "~"⟩, 1) := by decide
  obtain ⟨-, hroot, hq⟩ := hbetween _ _ _ _ hfile
  rw [hdown] at hjoin
  exact ⟨hdown, hwithin, hjoin.mp hwithin, hup, hbeside,
    htrans _ (.ofString "/r/a//lib") _ (by decide) (by decide),
    hanti _ _ (by decide) (by decide) (by decide) (by decide),
    hchain (.ofString "/r/a/lib/f.js") _ _ (by decide) (by decide), hfile, hroot,
    hq _ (by decide) (by decide)⟩

end Monorepo.Resolver
