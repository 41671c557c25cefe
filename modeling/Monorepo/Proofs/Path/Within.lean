import Monorepo.Proofs.Path.Below
import Monorepo.Proofs.Path.Shortest

/-! Containment and ways. One place lies within another just if the way to it takes no step up, and
the names of that way are then what is left of the one behind the other. Containment orders normal
paths, and all that a path lies within is a chain. -/
namespace Monorepo
namespace Component

theorem way_append_names (bs ns : List Segment) :
    way ((bs ++ ns).map name) (bs.map name) = ns.map name := by
  have h := way_append (bs.map name) (ns.map name) []
  rw [List.append_nil, ← List.map_append] at h
  rw [h]
  cases ns <;> rfl

/-- A way that takes steps up takes them first. -/
theorem head?_way_names (ps bs : List Segment) :
    (way (ps.map name) (bs.map name)).head? = some parent ↔ ¬ bs <+: ps := by
  constructor
  · rintro hup ⟨ns, rfl⟩
    rw [way_append_names] at hup
    cases ns <;> cases hup
  · intro hnot
    obtain ⟨shared, down, up, rfl, rfl, hway⟩ := way_names ps bs
    rw [hway]
    cases up with
    | nil =>
      rw [List.append_nil] at hnot
      exact absurd (List.prefix_append shared down) hnot
    | cons s up => rfl

end Component

namespace Path
open Component

theorem isWithin_iff (p q : Path) : p.isWithin q = true ↔ q.components <+: p.components :=
  List.isPrefixOf_iff_prefix

theorem isWithin_self (p : Path) : p.isWithin p = true :=
  (isWithin_iff p p).mpr (List.prefix_refl _)

theorem isWithin_antisymm {p q : Path} (hp : p.normalize = p) (hq : q.normalize = q)
    (hpq : p.isWithin q = true) (hqp : q.isWithin p = true) : p = q := by
  rw [isWithin_iff] at hpq hqp
  have hc : q.components = p.components :=
    hpq.eq_of_length (Nat.le_antisymm hpq.length_le hqp.length_le)
  rw [← hp, ← hq]
  exact normalize_congr p q (congrArg simplify hc.symm)

theorem isWithin_or_isWithin {p q s : Path} (hq : p.isWithin q = true) (hs : p.isWithin s = true) :
    q.isWithin s = true ∨ s.isWithin q = true := by
  rw [isWithin_iff] at hq hs
  rw [isWithin_iff, isWithin_iff]
  exact List.prefix_or_prefix_of_prefix hs hq

variable {p base : Path}

theorem isWithin_normalize_iff (hp : p.isAbsolute = true) (hb : base.isAbsolute = true) :
    p.normalize.isWithin base.normalize = true ↔ base.place <+: p.place := by
  rw [isWithin_iff, components_normalize_of_isAbsolute p hp,
    components_normalize_of_isAbsolute base hb, List.prefix_cons_inj,
    List.prefix_map_iff_of_injective fun _ _ h => name.inj h]

theorem startsWithDot_iff_of_isStep (h : ∀ c ∈ p.components, IsStep c) :
    p.startsWithDot = true ↔ p.components.head? = some parent := by
  rw [startsWithDot]
  cases hc : p.components with
  | nil => simp
  | cons c cs =>
    have hstep : IsStep c := h c (hc ▸ List.mem_cons_self)
    cases c with
    | root => exact hstep.elim
    | current => exact hstep.elim
    | parent => simp
    | name s => simp

theorem head?_relativeTo (hp : p.isAbsolute = true) (hb : base.isAbsolute = true) :
    (p.relativeTo base).components.head? = some parent ↔
      ¬ p.normalize.isWithin base.normalize = true := by
  rw [components_relativeTo p base hp hb, head?_way_names, isWithin_normalize_iff hp hb]

theorem startsWithDot_relativeTo (hp : p.isAbsolute = true) (hb : base.isAbsolute = true) :
    (p.relativeTo base).startsWithDot = true ↔ ¬ p.normalize.isWithin base.normalize = true := by
  rw [← head?_relativeTo hp hb]
  apply startsWithDot_iff_of_isStep
  rw [components_relativeTo p base hp hb]
  exact isStep_of_mem_way _ _ (isName_of_mem_place p)

/-- The way is put behind the base as it is: steps up in it are not undone. -/
theorem components_join_relativeTo (hp : p.isAbsolute = true) (hb : base.isAbsolute = true) :
    (base.normalize.join (p.relativeTo base)).components =
      base.normalize.components ++ way (p.place.map name) (base.place.map name) := by
  have hrelative : (p.relativeTo base).isAbsolute = false := (relativeTo_shortest p base hp hb).1
  have hne : base.normalize ≠ empty := by
    intro he
    have ha := isAbsolute_normalize base
    rw [he, hb] at ha
    cases ha
  rw [components_join _ _ hrelative hne, steps_relativeTo p base hp hb]

theorem denotesSame_join_relativeTo (hp : p.isAbsolute = true) (hb : base.isAbsolute = true) :
    (base.normalize.join (p.relativeTo base)).denotesSame p.normalize = true ↔
      p.normalize.isWithin base.normalize = true := by
  have hjoin := components_join_relativeTo hp hb
  rw [denotesSame, beq_iff_eq, hjoin]
  constructor
  · intro h
    exact (isWithin_iff _ _).mpr ⟨_, h⟩
  · intro h
    obtain ⟨ns, hns⟩ := (isWithin_normalize_iff hp hb).mp h
    rw [← hns, way_append_names, components_normalize_of_isAbsolute base hb,
      components_normalize_of_isAbsolute p hp, ← hns, List.map_append, List.cons_append]

end Path
end Monorepo
