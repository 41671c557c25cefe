import Mathlib.Data.List.Basic
import Monorepo.Proofs.Resolver.Destination

/-! The name of one's own package, where it is not to be resolved. It is looked up as any other
module, and the look-up takes the first match: the packages in front of one's own may claim it, and
those behind have no say. -/
namespace Monorepo.Resolver

def before (r : Resolver) (n : Nat) : Resolver := { r with packages := r.packages.take n }

theorem zipIdx_eq_take_append {α : Type*} (l : List α) (n : Nat) (a : α) (h : l[n]? = some a) :
    ∃ rest, l.zipIdx = (l.take n).zipIdx ++ (a, n) :: rest := by
  obtain ⟨hn, rfl⟩ := List.getElem?_eq_some_iff.mp h
  have hlength : (l.take n).length = n := List.length_take_of_le hn.le
  have hsplit : (l.take n ++ l.drop n).zipIdx = _ := List.zipIdx_append
  rw [List.take_append_drop, hlength, List.drop_eq_getElem_cons hn, List.zipIdx_cons] at hsplit
  exact ⟨_, by simpa using hsplit⟩

variable {r : Resolver} {target : String} {origin real : Path} {relative : Bool} {p q : Package}
  {m n : Nat} {rest : List Char}

theorem lt_of_mem_zipIdx_take (h : (q, m) ∈ (r.before n).packages.zipIdx) : m < n := by
  have hm : (r.packages.take n)[m]? = some q := List.mk_mem_zipIdx_iff_getElem?.mp h
  exact lt_of_lt_of_le (List.getElem?_eq_some_iff.mp hm).1 (List.length_take_le n r.packages)

/-- In front of the package that a file belongs to, there is none that it belongs to. -/
theorem packageOf?_before (h : r.packageOf? real = some (p, n)) :
    (r.before n).packageOf? real = none := by
  obtain ⟨tail, htail⟩ := zipIdx_eq_take_append _ n p (r.packageOf?_some real p n h).1
  cases hb : (r.before n).packageOf? real with
  | none => rfl
  | some x =>
    have hx : r.packageOf? real = some x := by
      rw [packageOf?, htail, List.find?_append]
      exact Option.or_eq_some_iff.mpr (Or.inl hb)
    rw [h] at hx
    cases hx
    exact absurd (lt_of_mem_zipIdx_take (List.mem_of_find?_eq_some hb)) (lt_irrefl n)

/-- Where the package at place `n` has the name, the look-up takes one in front of it or that
one. -/
theorem packageNamed?_before (hn : r.packages[n]? = some p)
    (h : stripToken? target.toList (p.name.getD "").toList = some rest) :
    r.packageNamed? target.toList =
      ((r.before n).packageNamed? target.toList).or (some (p, n, rest)) := by
  obtain ⟨tail, htail⟩ := zipIdx_eq_take_append _ n p hn
  have hself : (stripToken? target.toList (p.name.getD "").toList).map
      (fun rest => (p, n, rest)) = some (p, n, rest) := by rw [h, Option.map_some]
  rw [packageNamed?, htail, List.findSome?_append, List.findSome?_cons]
  dsimp only
  rw [hself]
  rfl

/-- For the name of its own package, a file counts as one of no package, and its own package and
those behind it as not there. -/
theorem modulePath?_ownName (hp : r.packageOf? real = some (p, n))
    (h : stripToken? target.toList (p.name.getD "").toList = some rest) :
    r.modulePath? (r.packageOf? real) target.toList =
      (r.before n).modulePath? none target.toList := by
  rw [modulePath?, modulePath?, packageNamed?_before (r.packageOf?_some real p n hp).1 h, hp]
  cases hb : (r.before n).packageNamed? target.toList with
  | none => simp
  | some x =>
    obtain ⟨q, m, rest'⟩ := x
    have hm := (packageNamed?_some _ _ q m rest' hb).1
    have hne : n ≠ m := (lt_of_mem_zipIdx_take (List.mk_mem_zipIdx_iff_getElem?.mpr hm)).ne'
    have hown : ((some (p, n)).any fun o => o.2 == m) = false := by simpa using hne
    simp only [Option.some_or, hown]
    rfl

theorem destination?_outside (h : r.packageOf? real = none)
    (hrel : Specifier.isRelative target = false) :
    r.destination? target real = r.modulePath? none target.toList := by
  have hs : r.specifierAt target real = .module := by
    rw [specifierAt, h]
    exact if_neg (by simp [hrel])
  rw [destination?, hs, h]

/-- What one's own name stands for if it is not to be resolved. -/
theorem destination?_ownName (hself : r.settings.resolveOwnName = false)
    (hp : r.packageOf? real = some (p, n)) (hrel : Specifier.isRelative target = false)
    (hname : IsInFront (p.name.getD "") target) (halias : ¬ IsInFront p.aliasToken target) :
    r.destination? target real = (r.before n).destination? target real := by
  obtain ⟨rest, hrest⟩ := Option.isSome_iff_exists.mp ((isInFront_iff _ _).mp hname)
  have hs : r.specifierAt target real = .module := by
    rw [specifierAt, hp, Option.map_some,
      Specifier.classify_of_ownName r.settings p target rest hrel
      ((stripToken?_eq_none_iff _ _).mpr halias) hrest, if_neg (by simp [hself])]
  rw [destination?, hs, destination?_outside (packageOf?_before hp) hrel]
  exact modulePath?_ownName hp hrest

/-- Where own names are not resolved, the answer for one's own name is that of the packages in front
of one's own, none of which the file belongs to. If none of them has the name, the name is left as
it is, whatever other packages there are. -/
theorem own_name_left_to_packages_before (r : Resolver)
    (hself : r.settings.resolveOwnName = false) (target : String) (origin : Path)
    (relative : Bool) :
    (∀ e, r.realFile origin = .error e → r.resolve target origin relative = .error e) ∧
    ∀ real p n, r.realFile origin = .ok real → r.packageOf? real = some (p, n) →
      Specifier.isRelative target = false → IsInFront (p.name.getD "") target →
      ¬ IsInFront p.aliasToken target →
      (r.before n).packageOf? real = none ∧
      r.resolve target origin relative = (r.before n).resolve target origin relative ∧
      ((∀ q ∈ (r.before n).packages, ¬ IsInFront (q.name.getD "") target) →
        r.resolve target origin relative = .ok target) := by
  refine ⟨fun e hf => resolve_of_realFile_error hf, ?_⟩
  intro real p n hf hp hrel hname halias
  have hdest := destination?_ownName hself hp hrel hname halias
  have hfile : (r.before n).realFile origin = .ok real := by
    rw [← hf, realFile_eq, realFile_eq]
    rfl
  refine ⟨packageOf?_before hp, ?_, fun hnone => ?_⟩
  · apply resolve_congr (hf.trans hfile.symm)
    intro real' hf'
    obtain rfl : real = real' := Except.ok.inj (hf.symm.trans hf')
    exact hdest
  · have hleft : (r.before n).destination? target real = .ok none := by
      rw [destination?_outside (packageOf?_before hp) hrel, modulePath?,
        packageNamed?_eq_none_iff.mpr hnone]
    exact resolve_of_destination hf (hdest.trans hleft)

def nestedNames : Resolver where
  settings := { resolveOwnName := false, resolveLinks := false }
  packages := [⟨some "a/b", .ofString "/r/b", "src", none, "src", "~"⟩,
    ⟨some "a", .ofString "/r/a", "src", none, "src", "~"⟩,
    ⟨some "a", .ofString "/r/old", "src", none, "src", "~"⟩]
  probe := ⟨fun _ => .ok none, fun _ => .ok false⟩

theorem own_name_left_alone_nestedNames :
    nestedNames.settings.resolveOwnName = false ∧
    nestedNames.realFile (.ofString "/r/a/f.js") = .ok (.ofString "/r/a/f.js") ∧
    nestedNames.packageOf? (.ofString "/r/a/f.js") =
      some (⟨some "a", .ofString "/r/a", "src", none, "src", "~"⟩, 1) ∧
    Specifier.isRelative "a/x" = false ∧ IsInFront "a" "a/x" ∧ ¬ IsInFront "~" "a/x" ∧
    (∀ q ∈ (nestedNames.before 1).packages, ¬ IsInFront (q.name.getD "") "a/x") ∧
    nestedNames.resolve "a/x" (.ofString "/r/a/f.js") true = .ok "a/x" := by
  have hf : nestedNames.realFile (.ofString "/r/a/f.js") = .ok (.ofString "/r/a/f.js") := by decide
  have hp : nestedNames.packageOf? (.ofString "/r/a/f.js") =
      some (⟨some "a", .ofString "/r/a", "src", none, "src", "~"⟩, 1) := by decide
  have hname : IsInFront "a" "a/x" := by decide
  have hnone : ∀ q ∈ (nestedNames.before 1).packages, ¬ IsInFront (q.name.getD "") "a/x" := by
    decide
  have hall :=
    (own_name_left_to_packages_before nestedNames rfl "a/x" (.ofString "/r/a/f.js") true).2
    _ _ _ hf hp (by decide) hname (by decide)
  exact ⟨rfl, hf, hp, by decide, hname, by decide, hnone, hall.2.2 hnone⟩

/-- A name that goes on behind one's own is claimed by the package in front that has all of it. -/
theorem own_name_claimed_by_longer_name :
    nestedNames.settings.resolveOwnName = false ∧
    nestedNames.realFile (.ofString "/r/a/f.js") = .ok (.ofString "/r/a/f.js") ∧
    nestedNames.packageOf? (.ofString "/r/a/f.js") =
      some (⟨some "a", .ofString "/r/a", "src", none, "src", "~"⟩, 1) ∧
    Specifier.isRelative "a/b/x" = false ∧ IsInFront "a" "a/b/x" ∧ ¬ IsInFront "~" "a/b/x" ∧
    nestedNames.resolve "a/b/x" (.ofString "/r/a/f.js") true = .ok "../b/src/x" := by
  decide

end Monorepo.Resolver
