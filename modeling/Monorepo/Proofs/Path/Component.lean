import Mathlib.Data.List.Induction
import Monorepo.Proofs.Path.Segment

/-! What joining and writing out do to the components of a path. A path is a head, which is a root,
a dot or nothing, and the steps that lead on from there. -/
namespace Monorepo.Path
open Component

def steps (p : Path) : List Component := (segments p.chars).filterMap Component.ofSegment?

def head (p : Path) : List Component :=
  if p.isAbsolute then [.root]
  else if (segments p.chars).head? = some [dot] then [.current] else []

theorem components_eq (p : Path) : p.components = p.head ++ p.steps := by
  unfold components head steps
  split_ifs <;> rfl

theorem isStep_of_mem_steps (p : Path) (c : Component) (h : c ∈ p.steps) : IsStep c := by
  obtain ⟨s, hs, hc⟩ := List.mem_filterMap.mp h
  exact ((ofSegment?_eq_some_iff s c (no_slash_of_mem_segments _ _ hs)).mp hc).1

theorem components_of_isAbsolute (p : Path) (h : p.isAbsolute = true) :
    p.components = root :: p.steps := by
  rw [components_eq, head, if_pos h]
  rfl

@[simp] theorem components_empty : empty.components = [] := rfl

@[simp] theorem steps_empty : empty.steps = [] := rfl

@[simp] theorem isAbsolute_empty : empty.isAbsolute = false := rfl

theorem isEmpty_iff (p : Path) : p.isEmpty = true ↔ p = empty := by
  cases p with
  | mk cs => cases cs <;> simp [isEmpty, empty]

theorem isAbsolute_iff (p : Path) : p.isAbsolute = true ↔ ∃ cs, p.chars = slash :: cs := by
  cases p with
  | mk cs => cases cs <;> simp [isAbsolute]

theorem isEmpty_of_isAbsolute (p : Path) (h : p.isAbsolute = true) : p.isEmpty = false := by
  obtain ⟨cs, hcs⟩ := (isAbsolute_iff p).mp h
  rw [isEmpty, hcs]
  rfl

theorem head?_segments_of_isAbsolute (p : Path) (h : p.isAbsolute = true) :
    (segments p.chars).head? = some [] := by
  obtain ⟨cs, hcs⟩ := (isAbsolute_iff p).mp h
  rw [hcs, segments, if_pos rfl]
  rfl

/-- Only the empty path begins with an empty segment without being absolute. -/
theorem head?_segments_of_relative (p : Path) (h : p.isAbsolute = false) (hne : p ≠ empty) :
    (segments p.chars).head? ≠ some [] := by
  intro hs
  obtain ⟨u, hu, rfl | ⟨cs, rfl⟩⟩ := exists_eq_append_of_head?_segments p.chars [] hs
  · exact hne (by cases p; simp_all [empty])
  · rw [isAbsolute, hu] at h
    cases h

theorem isAbsolute_append (a b : List Utf8.Symbol) (ha : a ≠ []) :
    (Path.mk (a ++ b)).isAbsolute = (Path.mk a).isAbsolute := by
  cases a with
  | nil => exact absurd rfl ha
  | cons c a => rfl

theorem steps_append_slash (a b : List Utf8.Symbol) :
    (Path.mk (a ++ slash :: b)).steps = (Path.mk a).steps ++ (Path.mk b).steps := by
  simp [steps, segments_append_slash]

theorem head_append_slash (a b : List Utf8.Symbol) (ha : a ≠ []) :
    (Path.mk (a ++ slash :: b)).head = (Path.mk a).head := by
  simp only [head, isAbsolute_append a _ ha, head?_segments_append_slash]

theorem steps_append_last (a : List Utf8.Symbol) :
    (Path.mk (a ++ [slash])).steps = (Path.mk a).steps := by
  rw [steps_append_slash]
  exact List.append_nil _

theorem steps_dot_slash (a : List Utf8.Symbol) :
    (Path.mk (dot :: slash :: a)).steps = (Path.mk a).steps := by
  exact steps_append_slash [dot] a

theorem join_of_isAbsolute (p q : Path) (hq : q.isAbsolute = true) : p.join q = q := by
  simp [join, hq]

@[simp] theorem join_empty_left (q : Path) : empty.join q = q := by
  simp [join, isEmpty, empty]

theorem join_eq_append_slash (p q : Path) (hq : q.isAbsolute = false) (hp : p ≠ empty) :
    ∃ a, a ++ slash :: q.chars = (p.join q).chars ∧
      ((a = p.chars ∧ a ≠ []) ∨ a ++ [slash] = p.chars) := by
  have hne : p.isEmpty = false := by
    rw [Bool.eq_false_iff, ne_eq, isEmpty_iff]
    exact hp
  have hc : p.chars ≠ [] := by
    intro h
    exact hp (by cases p; simp_all [empty])
  by_cases hl : p.chars.getLast? = some slash
  · obtain ⟨a, ha⟩ := List.getLast?_eq_some_iff.mp hl
    refine ⟨a, ?_, Or.inr ha.symm⟩
    simp [join, hq, hne, ha]
  · refine ⟨p.chars, ?_, Or.inl ⟨rfl, hc⟩⟩
    simp [join, hq, hne, hl]

theorem components_join (p q : Path) (hq : q.isAbsolute = false) (hp : p ≠ empty) :
    (p.join q).components = p.components ++ q.steps := by
  obtain ⟨a, ha, h⟩ := join_eq_append_slash p q hq hp
  have hj : p.join q = ⟨a ++ slash :: q.chars⟩ := by rw [ha]
  rw [components_eq, components_eq, List.append_assoc, hj]
  obtain ⟨rfl, hne⟩ | hs := h
  · rw [head_append_slash _ _ hne, steps_append_slash]
  · cases a with
    | nil =>
      have hp' : p = ⟨[slash]⟩ := by cases p; simp_all
      subst hp'
      rw [steps_append_slash]
      rfl
    | cons c a =>
      have hp' : p = ⟨c :: a ++ [slash]⟩ := by cases p; simp_all
      rw [hp', head_append_slash _ _ (by simp), head_append_slash _ _ (by simp),
        steps_append_slash, steps_append_last]

theorem isAbsolute_join (p q : Path) (hp : p.isAbsolute = true) : (p.join q).isAbsolute = true := by
  by_cases hq : q.isAbsolute = true
  · rwa [join_of_isAbsolute p q hq]
  · obtain ⟨cs, hcs⟩ := (isAbsolute_iff p).mp hp
    have hne : p ≠ empty := by
      rintro rfl
      simp at hp
    obtain ⟨a, ha, h⟩ := join_eq_append_slash p q (by simpa using hq) hne
    rw [isAbsolute_iff, ← ha]
    obtain ⟨rfl, -⟩ | hs := h
    · exact ⟨_, by rw [hcs]; rfl⟩
    · cases a with
      | nil => exact ⟨_, rfl⟩
      | cons c a => simp_all

theorem steps_join (p q : Path) (hq : q.isAbsolute = false) (hp : p.isAbsolute = true) :
    (p.join q).steps = p.steps ++ q.steps := by
  have hne : p ≠ empty := by
    rintro rfl
    simp at hp
  have h := components_join p q hq hne
  rw [components_of_isAbsolute _ (isAbsolute_join p q hp), components_of_isAbsolute p hp] at h
  simpa using h

theorem steps_of_isStep (c : Component) (h : IsStep c) : (Path.mk c.chars).steps = [c] := by
  simp [steps, segments_of_no_slash _ h.no_slash, h.ofSegment?_chars]

theorem isAbsolute_of_no_slash {s : Segment} (hs : slash ∉ s) : (Path.mk s).isAbsolute = false := by
  rw [Bool.eq_false_iff, ne_eq, isAbsolute_iff]
  rintro ⟨cs, rfl⟩
  exact hs List.mem_cons_self

theorem isAbsolute_of_isStep (c : Component) (h : IsStep c) :
    (Path.mk c.chars).isAbsolute = false := isAbsolute_of_no_slash h.no_slash

theorem components_of_isStep (c : Component) (h : IsStep c) :
    (Path.mk c.chars).components = [c] := by
  rw [components_eq, steps_of_isStep c h, head, isAbsolute_of_isStep c h]
  simp [segments_of_no_slash _ h.no_slash, h.chars_ne_dot]

theorem components_join_of_isStep (p : Path) (c : Component) (h : IsStep c) :
    (p.join ⟨c.chars⟩).components = p.components ++ [c] := by
  by_cases hp : p = empty
  · subst hp
    rw [join_empty_left, components_of_isStep c h]
    rfl
  · rw [components_join p _ (isAbsolute_of_isStep c h) hp, steps_of_isStep c h]

theorem ofComponents_append_singleton (cs : List Component) (c : Component) :
    ofComponents (cs ++ [c]) = (ofComponents cs).join ⟨c.chars⟩ := by
  simp [ofComponents]

/-- Steps written out are read back, behind a root or behind nothing. -/
theorem components_ofComponents_steps (cs : List Component) (h : ∀ c ∈ cs, IsStep c) :
    (ofComponents cs).components = cs := by
  induction cs using List.reverseRecOn with
  | nil => rfl
  | append_singleton cs c ih =>
    rw [ofComponents_append_singleton, components_join_of_isStep _ c (h c (by simp)),
      ih (fun d hd => h d (by simp [hd]))]

theorem components_ofComponents_root (cs : List Component) (h : ∀ c ∈ cs, IsStep c) :
    (ofComponents (root :: cs)).components = root :: cs := by
  induction cs using List.reverseRecOn with
  | nil => rfl
  | append_singleton cs c ih =>
    rw [← List.cons_append, ofComponents_append_singleton,
      components_join_of_isStep _ c (h c (by simp)), ih (fun d hd => h d (by simp [hd]))]

theorem ofComponents_eq_empty_iff (cs : List Component) (h : ∀ c ∈ cs, IsStep c) :
    ofComponents cs = empty ↔ cs = [] := by
  constructor
  · intro he
    have hc := components_ofComponents_steps cs h
    rw [he] at hc
    exact hc.symm
  · rintro rfl
    rfl

end Monorepo.Path
