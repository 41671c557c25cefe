import Monorepo.Proofs.Path.Normal

/-! Absolute paths as places. A place is the list of names from the root, and the way from one place
to another goes up to what both share and then down. No disk is asked. -/
namespace Monorepo
namespace Component

/-- Going up undoes as many names as there are steps up. -/
theorem foldl_lead_parents (up : List Component) (ns us : List Segment)
    (h : us.length = up.length) :
    (up.map fun _ => parent).foldl lead (ns ++ us) = ns := by
  induction up generalizing us with
  | nil =>
    have hu : us = [] := List.eq_nil_of_length_eq_zero h
    simp [hu]
  | cons c up ih =>
    induction us using List.reverseRecOn with
    | nil => simp at h
    | append_singleton us s =>
      have hl : us.length = up.length := by simpa using h
      have hd : lead (ns ++ (us ++ [s])) parent = ns ++ us := by
        rw [lead, ← List.append_assoc, List.dropLast_concat]
      rw [List.map_cons, List.foldl_cons, hd, ih us hl]

theorem foldl_lead_names (ns down : List Segment) :
    (down.map name).foldl lead ns = ns ++ down := by
  induction down generalizing ns with
  | nil => simp
  | cons s down ih => simp [lead, ih]

theorem dropShared_spec (as bs : List Component) :
    ∃ s, as = s ++ (dropShared as bs).1 ∧ bs = s ++ (dropShared as bs).2 := by
  induction as generalizing bs with
  | nil => exact ⟨[], by simp [dropShared], by simp [dropShared]⟩
  | cons a as ih =>
    cases bs with
    | nil => exact ⟨[], by simp [dropShared], by simp [dropShared]⟩
    | cons b bs =>
      by_cases hab : a = b
      · obtain ⟨s, ha, hb⟩ := ih bs
        refine ⟨a :: s, ?_, ?_⟩
        · simpa [dropShared, hab] using ha
        · simpa [dropShared, hab] using hb
      · exact ⟨[], by simp [dropShared, hab], by simp [dropShared, hab]⟩

def way (as bs : List Component) : List Component :=
  ((dropShared as bs).2.map fun _ => parent) ++ (dropShared as bs).1

theorem way_append (s as bs : List Component) : way (s ++ as) (s ++ bs) = way as bs := by
  induction s with
  | nil => rfl
  | cons c s ih => simpa [way, dropShared] using ih

theorem way_names (ps bs : List Segment) :
    ∃ shared down up, ps = shared ++ down ∧ bs = shared ++ up ∧
      way (ps.map name) (bs.map name) = (up.map fun _ => parent) ++ down.map name := by
  obtain ⟨s, hp, hb⟩ := dropShared_spec (ps.map name) (bs.map name)
  obtain ⟨shared, down, hps, hs, hd⟩ := List.map_eq_append_iff.mp hp
  obtain ⟨shared', up, hbs, hs', hu⟩ := List.map_eq_append_iff.mp hb
  have he : shared' = shared :=
    List.map_injective_iff.mpr (fun _ _ h => Component.name.inj h) (hs'.trans hs.symm)
  refine ⟨shared, down, up, hps, he ▸ hbs, ?_⟩
  rw [way, ← hd, ← hu, List.map_map]
  rfl

/-- Whoever follows the way from one place to another gets there. -/
theorem foldl_lead_way (ps bs : List Segment) :
    (way (ps.map name) (bs.map name)).foldl lead bs = ps := by
  obtain ⟨shared, down, up, hp, hb, hw⟩ := way_names ps bs
  have hu := foldl_lead_parents (up.map name) shared up (by simp)
  rw [List.map_map] at hu
  rw [hw, List.foldl_append, hb, hp]
  change (down.map name).foldl lead ((up.map fun _ => parent).foldl lead (shared ++ up)) = _
  rw [show (up.map fun _ => parent).foldl lead (shared ++ up) = shared from hu, foldl_lead_names]

theorem isStep_of_mem_way (ps bs : List Segment) (h : ∀ s ∈ ps, IsName s) (c : Component)
    (hc : c ∈ way (ps.map name) (bs.map name)) : IsStep c := by
  obtain ⟨shared, down, up, hp, -, hw⟩ := way_names ps bs
  rw [hw] at hc
  obtain hc | hc := List.mem_append.mp hc
  · obtain ⟨_, _, rfl⟩ := List.mem_map.mp hc
    trivial
  · obtain ⟨t, ht, rfl⟩ := List.mem_map.mp hc
    exact h t (hp ▸ List.mem_append_right _ ht)

end Component

namespace Path
open Component

/-- The names from the root to where an absolute path leads. -/
def place (p : Path) : List Segment := p.steps.foldl lead []

theorem isName_of_mem_place (p : Path) (s : Segment) (h : s ∈ p.place) : IsName s :=
  isName_of_mem_foldl_lead p.steps [] (isStep_of_mem_steps p) (by simp) s h

theorem simplify_components_of_isAbsolute (p : Path) (h : p.isAbsolute = true) :
    simplify p.components = root :: p.place.map name := by
  rw [components_of_isAbsolute p h, simplify_root_cons _ (isStep_of_mem_steps p)]
  rfl

theorem components_normalize_of_isAbsolute (p : Path) (h : p.isAbsolute = true) :
    p.normalize.components = root :: p.place.map name := by
  rw [components_normalize, simplify_components_of_isAbsolute p h]

theorem normalize_of_isAbsolute (p : Path) (h : p.isAbsolute = true) :
    p.normalize = ofComponents (root :: p.place.map name) := by
  rw [normalize, simplify_components_of_isAbsolute p h]

theorem getLast?_join_of_isStep (p : Path) (c : Component) (hc : IsStep c) :
    (p.join ⟨c.chars⟩).chars.getLast? = c.chars.getLast? := by
  by_cases hp : p = empty
  · rw [hp, join_empty_left]
  · obtain ⟨a, hj, -⟩ := join_eq_append_slash p ⟨c.chars⟩ (isAbsolute_of_isStep c hc) hp
    rw [← hj, List.getLast?_append_of_ne_nil _ (by simp)]
    exact List.getLast?_cons_of_ne_nil hc.chars_ne_nil

/-- What ends with a step does not end with a slash. -/
theorem getLast?_ofComponents_append (cs : List Component) (c : Component) (hc : IsStep c) :
    (ofComponents (cs ++ [c])).chars.getLast? ≠ some slash := by
  rw [ofComponents_append_singleton, getLast?_join_of_isStep _ c hc]
  exact fun h => hc.no_slash (List.mem_of_getLast? h)

/-- Of the normal paths, the root alone ends with a slash. -/
theorem getLast?_normalize_iff (p : Path) :
    p.normalize.chars.getLast? = some slash ↔ p.normalize = ⟨[slash]⟩ := by
  constructor
  · intro hl
    cases ha : p.isAbsolute with
    | true =>
      rw [normalize_of_isAbsolute p ha] at hl ⊢
      cases hp : p.place using List.reverseRecOn with
      | nil => rfl
      | append_singleton ns s _ =>
        have hs : IsName s := isName_of_mem_place p s (by rw [hp]; simp)
        rw [hp, List.map_append, ← List.cons_append] at hl
        exact absurd hl (getLast?_ofComponents_append _ (name s) hs)
    | false =>
      rw [normalize, simplify_components_of_relative p ha] at hl
      cases hs : simplify p.steps using List.reverseRecOn with
      | nil =>
        rw [hs] at hl
        cases hl
      | append_singleton cs c _ =>
        have hc : IsStep c := isStep_of_mem_simplify_steps p c (by rw [hs]; simp)
        rw [hs] at hl
        exact absurd hl (getLast?_ofComponents_append cs c hc)
  · intro hr
    rw [hr]
    rfl

theorem normalize_eq_of_place_eq (p q : Path) (hp : p.isAbsolute = true)
    (hq : q.isAbsolute = true) (h : p.place = q.place) : p.normalize = q.normalize := by
  apply normalize_congr
  rw [simplify_components_of_isAbsolute p hp, simplify_components_of_isAbsolute q hq, h]

theorem place_join (p q : Path) (hp : p.isAbsolute = true) (hq : q.isAbsolute = false) :
    (p.join q).place = q.steps.foldl lead p.place := by
  rw [place, steps_join p q hq hp, List.foldl_append]
  rfl

theorem steps_ofComponents (cs : List Component) (h : ∀ c ∈ cs, IsStep c) :
    (ofComponents cs).steps = cs ∧ (ofComponents cs).isAbsolute = false := by
  have hc := components_ofComponents_steps cs h
  have ha : (ofComponents cs).isAbsolute = false := by
    rw [Bool.eq_false_iff]
    intro ha
    rw [components_of_isAbsolute _ ha] at hc
    exact h root (hc ▸ List.mem_cons_self)
  refine ⟨?_, ha⟩
  rw [components_eq, head, if_neg (by simp [ha])] at hc
  split_ifs at hc
  · exact (h current (hc ▸ List.mem_cons_self)).elim
  · exact hc

theorem relativeTo_eq (p base : Path) (hp : p.isAbsolute = true) (hb : base.isAbsolute = true) :
    p.relativeTo base = ofComponents (way (p.place.map name) (base.place.map name)) := by
  rw [← way_append [root]]
  change ofComponents (way p.normalize.components base.normalize.components) = _
  rw [components_normalize_of_isAbsolute p hp, components_normalize_of_isAbsolute base hb]
  rfl

theorem steps_relativeTo (p base : Path) (hp : p.isAbsolute = true)
    (hb : base.isAbsolute = true) :
    (p.relativeTo base).steps = way (p.place.map name) (base.place.map name) := by
  rw [relativeTo_eq p base hp hb]
  exact (steps_ofComponents _ (isStep_of_mem_way _ _ (isName_of_mem_place p))).1

end Path
end Monorepo
