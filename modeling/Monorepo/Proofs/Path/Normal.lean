import Monorepo.Path.Normal
import Monorepo.Proofs.Path.Component

/-! Normal forms. Simplifying a list of components twice, or in pieces, is simplifying it once, and
the normal form of a path has the simplified components of that path. -/
namespace Monorepo
namespace Component

theorem trail_cases (t : List Component) (c : Component) :
    (trail t c = t ∧ (c = current ∨ c = parent ∧ ∃ u, t = root :: u)) ∨
    (∃ s u, t = name s :: u ∧ c = parent ∧ trail t c = u) ∨
    (trail t c = c :: t ∧ c ≠ current) := by
  cases c with
  | current => exact Or.inl ⟨by simp [trail], Or.inl rfl⟩
  | root => exact Or.inr (Or.inr ⟨by cases t <;> simp [trail], by simp⟩)
  | name s => exact Or.inr (Or.inr ⟨by cases t <;> simp [trail], by simp⟩)
  | parent =>
    cases t with
    | nil => exact Or.inr (Or.inr ⟨rfl, by simp⟩)
    | cons d u =>
      cases d with
      | root => exact Or.inl ⟨rfl, Or.inr ⟨rfl, u, rfl⟩⟩
      | current => exact Or.inr (Or.inr ⟨rfl, by simp⟩)
      | parent => exact Or.inr (Or.inr ⟨rfl, by simp⟩)
      | name s => exact Or.inr (Or.inl ⟨s, u, rfl, rfl, rfl⟩)

theorem trail_name (t : List Component) (s : Segment) : trail t (name s) = name s :: t := by
  cases t <;> simp [trail]

theorem simplify_append (a b : List Component) :
    simplify (a ++ b) = (b.foldl trail (simplify a).reverse).reverse := by
  simp [simplify]

theorem simplify_append_singleton (cs : List Component) (c : Component) :
    simplify (cs ++ [c]) = (trail (simplify cs).reverse c).reverse :=
  simplify_append cs [c]

@[simp] theorem simplify_nil : simplify [] = [] := rfl

theorem simplify_current_cons (cs : List Component) : simplify (current :: cs) = simplify cs := by
  simp [simplify, trail]

theorem mem_of_mem_simplify (cs : List Component) (c : Component) (h : c ∈ simplify cs) :
    c ∈ cs := by
  induction cs using List.reverseRecOn with
  | nil => exact h
  | append_singleton cs d ih =>
    rw [simplify_append_singleton, List.mem_reverse] at h
    rw [List.mem_append, List.mem_singleton]
    obtain ⟨ht, -⟩ | ⟨s, u, hu, -, ht⟩ | ⟨ht, -⟩ := trail_cases (simplify cs).reverse d
    · rw [ht, List.mem_reverse] at h
      exact Or.inl (ih h)
    · have hc : c ∈ (simplify cs).reverse := by
        rw [hu]
        exact List.mem_cons_of_mem _ (ht ▸ h)
      exact Or.inl (ih (List.mem_reverse.mp hc))
    · rw [ht, List.mem_cons, List.mem_reverse] at h
      exact h.elim Or.inr (fun h => Or.inl (ih h))

theorem current_not_mem_simplify (cs : List Component) : current ∉ simplify cs := by
  induction cs using List.reverseRecOn with
  | nil => simp
  | append_singleton cs d ih =>
    rw [simplify_append_singleton, List.mem_reverse]
    obtain ⟨ht, -⟩ | ⟨s, u, hu, -, ht⟩ | ⟨ht, hd⟩ := trail_cases (simplify cs).reverse d
    · rw [ht, List.mem_reverse]
      exact ih
    · intro h
      apply ih
      rw [← List.mem_reverse, hu]
      exact List.mem_cons_of_mem _ (ht ▸ h)
    · rw [ht, List.mem_cons, List.mem_reverse, not_or]
      exact ⟨Ne.symm hd, ih⟩

/-- What is simple already is its own trail. -/
theorem simplify_simplify (cs : List Component) : simplify (simplify cs) = simplify cs := by
  induction cs using List.reverseRecOn with
  | nil => rfl
  | append_singleton cs c ih =>
    rw [simplify_append_singleton]
    obtain ⟨ht, -⟩ | ⟨s, u, hu, -, ht⟩ | ⟨ht, -⟩ := trail_cases (simplify cs).reverse c
    · rw [ht, List.reverse_reverse, ih]
    · rw [ht]
      have hs : simplify cs = u.reverse ++ [name s] := by
        have h := congrArg List.reverse hu
        simpa using h
      rw [hs, simplify_append_singleton, trail_name] at ih
      simpa using ih
    · rw [ht, List.reverse_cons, List.reverse_reverse, simplify_append_singleton, ih, ht,
        List.reverse_cons, List.reverse_reverse]

theorem simplify_append_left (a b : List Component) :
    simplify (simplify a ++ b) = simplify (a ++ b) := by
  rw [simplify_append, simplify_append, simplify_simplify]

/-- Components that lead on may be simplified before they are followed. A root among them could not:
it holds back a `..` that would else undo something further to the left. -/
theorem foldl_trail_simplify (t b : List Component) (hb : root ∉ b) :
    (simplify b).foldl trail t = b.foldl trail t := by
  induction b using List.reverseRecOn with
  | nil => rfl
  | append_singleton b c ih =>
    have hr : root ∉ b := fun h => hb (List.mem_append_left _ h)
    rw [simplify_append_singleton, List.foldl_append, ← ih hr]
    obtain ⟨ht, hc⟩ | ⟨s, u, hu, hc, ht⟩ | ⟨ht, -⟩ := trail_cases (simplify b).reverse c
    · obtain rfl | ⟨-, u, hu⟩ := hc
      · simp [trail]
      · have hm : root ∈ simplify b := by
          rw [← List.mem_reverse, hu]
          exact List.mem_cons_self
        exact absurd (mem_of_mem_simplify b root hm) hr
    · have hs : simplify b = u.reverse ++ [name s] := by
        have h := congrArg List.reverse hu
        simpa using h
      rw [ht, hs, List.foldl_append, hc]
      simp [trail]
    · rw [ht, List.reverse_cons, List.reverse_reverse, List.foldl_append]

theorem simplify_append_right (a b : List Component) (hb : root ∉ b) :
    simplify (a ++ simplify b) = simplify (a ++ b) := by
  rw [simplify_append, simplify_append, foldl_trail_simplify _ b hb]

/-- Where a component leads from a place below the root, which is given by the names on the way. -/
def lead (ns : List Segment) : Component → List Segment
  | name s => ns ++ [s]
  | parent => ns.dropLast
  | _ => ns

/-- Below a root, a trail is the way to a place. -/
theorem foldl_trail_root (cs : List Component) (ns : List Segment) (h : ∀ c ∈ cs, IsStep c) :
    cs.foldl trail ((ns.map name).reverse ++ [root]) =
      ((cs.foldl lead ns).map name).reverse ++ [root] := by
  induction cs generalizing ns with
  | nil => rfl
  | cons c cs ih =>
    have hs : trail ((ns.map name).reverse ++ [root]) c =
        ((lead ns c).map name).reverse ++ [root] := by
      cases c with
      | root => exact (h root (by simp)).elim
      | current => exact (h current (by simp)).elim
      | name s => simp [trail_name, lead]
      | parent =>
        induction ns using List.reverseRecOn with
        | nil => simp [trail, lead]
        | append_singleton ns s => simp [trail, lead]
    rw [List.foldl_cons, List.foldl_cons, hs, ih _ (fun d hd => h d (by simp [hd]))]

theorem simplify_root_cons (cs : List Component) (h : ∀ c ∈ cs, IsStep c) :
    simplify (root :: cs) = root :: (cs.foldl lead []).map name := by
  have ht := foldl_trail_root cs [] h
  rw [simplify, List.foldl_cons]
  change (cs.foldl trail [root]).reverse = _
  rw [show [root] = ((([] : List Segment).map name).reverse ++ [root]) from rfl, ht]
  simp

theorem isName_of_mem_foldl_lead (cs : List Component) (ns : List Segment)
    (h : ∀ c ∈ cs, IsStep c) (hn : ∀ s ∈ ns, IsName s) :
    ∀ s ∈ cs.foldl lead ns, IsName s := by
  induction cs generalizing ns with
  | nil => exact hn
  | cons c cs ih =>
    refine ih (lead ns c) (fun d hd => h d (by simp [hd])) ?_
    intro s hs
    cases c with
    | root => exact hn s hs
    | current => exact hn s hs
    | parent => exact hn s (List.dropLast_subset ns hs)
    | name t =>
      obtain hs | hs := List.mem_append.mp hs
      · exact hn s hs
      · rw [List.mem_singleton] at hs
        exact hs ▸ h (name t) (by simp)

end Component

namespace Path
open Component

theorem root_not_mem_steps (p : Path) : root ∉ p.steps := fun h => isStep_of_mem_steps p root h

theorem simplify_components_of_relative (p : Path) (h : p.isAbsolute = false) :
    simplify p.components = simplify p.steps := by
  rw [components_eq, head, if_neg (by simp [h])]
  split_ifs
  · exact simplify_current_cons _
  · rfl

theorem isStep_of_mem_simplify_steps (p : Path) (c : Component) (h : c ∈ simplify p.steps) :
    IsStep c :=
  isStep_of_mem_steps p c (mem_of_mem_simplify _ c h)

theorem components_normalize (p : Path) : p.normalize.components = simplify p.components := by
  rw [normalize]
  by_cases h : p.isAbsolute = true
  · have hs := simplify_root_cons p.steps (isStep_of_mem_steps p)
    rw [components_of_isAbsolute p h, hs]
    apply components_ofComponents_root
    intro c hc
    obtain ⟨s, hs, rfl⟩ := List.mem_map.mp hc
    exact isName_of_mem_foldl_lead p.steps [] (isStep_of_mem_steps p) (by simp) s hs
  · rw [simplify_components_of_relative p (by simpa using h)]
    exact components_ofComponents_steps _ (isStep_of_mem_simplify_steps p)

theorem normalize_normalize (p : Path) : p.normalize.normalize = p.normalize := by
  rw [normalize, components_normalize, simplify_simplify]
  rfl

theorem normalize_congr (p q : Path) (h : simplify p.components = simplify q.components) :
    p.normalize = q.normalize := by
  rw [normalize, h]
  rfl

theorem isAbsolute_of_root_mem (p : Path) (h : root ∈ p.components) : p.isAbsolute = true := by
  by_contra ha
  rw [components_eq, head, if_neg ha, List.mem_append] at h
  obtain h | h := h
  · split_ifs at h <;> simp at h
  · exact root_not_mem_steps p h

/-- What a relative path is joined to stays on its side of the root. -/
theorem isAbsolute_join_of_relative (p q : Path) (hq : q.isAbsolute = false) :
    (p.join q).isAbsolute = p.isAbsolute := by
  rw [Bool.eq_iff_iff]
  constructor
  · intro h
    by_cases hp : p = empty
    · rw [hp, join_empty_left, hq] at h
      cases h
    · have hm : root ∈ (p.join q).components := by
        rw [components_of_isAbsolute _ h]
        exact List.mem_cons_self
      rw [components_join p q hq hp, List.mem_append] at hm
      exact isAbsolute_of_root_mem p (hm.resolve_right (root_not_mem_steps q))
  · exact isAbsolute_join p q

/-- Normal forms stay on their side of the root. -/
theorem isAbsolute_normalize (p : Path) : p.normalize.isAbsolute = p.isAbsolute := by
  have hc := components_normalize p
  by_cases h : p.isAbsolute = true
  · rw [h]
    apply isAbsolute_of_root_mem
    rw [hc, components_of_isAbsolute p h, simplify_root_cons _ (isStep_of_mem_steps p)]
    exact List.mem_cons_self
  · rw [Bool.eq_false_iff.mpr h, Bool.eq_false_iff]
    intro hn
    rw [components_of_isAbsolute _ hn, simplify_components_of_relative p (by simpa using h)] at hc
    have hr : root ∈ simplify p.steps := by
      rw [← hc]
      exact List.mem_cons_self
    exact isStep_of_mem_simplify_steps p root hr

theorem steps_normalize_of_relative (p : Path) (h : p.isAbsolute = false) :
    p.normalize.steps = simplify p.steps := by
  have hc := components_normalize p
  have hn : p.normalize.isAbsolute = false := by rw [isAbsolute_normalize, h]
  rw [simplify_components_of_relative p h, components_eq, head, if_neg (by simp [hn])] at hc
  split_ifs at hc
  · have hm : current ∈ simplify p.steps := by
      rw [← hc]
      exact List.mem_cons_self
    exact absurd hm (current_not_mem_simplify _)
  · exact hc

theorem simplify_components_join (p q : Path) (hq : q.isAbsolute = false) :
    simplify (p.join q).components = simplify (p.components ++ q.steps) := by
  by_cases hp : p = empty
  · subst hp
    rw [join_empty_left, simplify_components_of_relative q hq]
    rfl
  · rw [components_join p q hq hp]

/-- Detours may be taken out before joining or after it. -/
theorem normalize_join_normalize (p q : Path) :
    (p.join q.normalize).normalize = (p.join q).normalize := by
  cases hq : q.isAbsolute with
  | true =>
    have hn : q.normalize.isAbsolute = true := by rw [isAbsolute_normalize, hq]
    rw [join_of_isAbsolute _ _ hn, join_of_isAbsolute _ q hq, normalize_normalize]
  | false =>
    have hn : q.normalize.isAbsolute = false := by rw [isAbsolute_normalize, hq]
    apply normalize_congr
    rw [simplify_components_join _ _ hn, simplify_components_join _ q hq,
      steps_normalize_of_relative q hq, simplify_append_right _ _ (root_not_mem_steps q)]

end Path
end Monorepo
