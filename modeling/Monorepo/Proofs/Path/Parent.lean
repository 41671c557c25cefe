import Mathlib.Data.List.DropRight
import Monorepo.Proofs.Path.Place

/-! The parent of a path. The text loses its last component with all the slashes and dots around it,
so below a root the steps lose their last one, whether or not the path is normal, and a relative
path stays relative. -/
namespace Monorepo
open Component

theorem segments_joinSegments (ss : List Segment) (hne : ss ≠ []) (h : ∀ s ∈ ss, slash ∉ s) :
    segments (joinSegments ss) = ss := by
  induction ss with
  | nil => exact absurd rfl hne
  | cons s rest ih =>
    cases rest with
    | nil => exact segments_of_no_slash s (h s (by simp))
    | cons t rest =>
      change segments (s ++ slash :: joinSegments (t :: rest)) = _
      rw [segments_append_slash, segments_of_no_slash s (h s (by simp)),
        ih (by simp) (fun u hu => h u (by simp [hu]))]
      rfl

theorem joinSegments_segments (cs : List Utf8.Symbol) : joinSegments (segments cs) = cs := by
  induction cs with
  | nil => rfl
  | cons c cs ih =>
    obtain ⟨t, rest, ht⟩ := List.exists_cons_of_ne_nil (segments_ne_nil cs)
    rw [ht] at ih
    by_cases hc : c = slash
    · rw [segments, if_pos hc, ht, joinSegments, ih, hc]
      · rfl
      · exact List.cons_ne_nil t rest
    · rw [segments, if_neg hc, ht]
      cases rest with
      | nil => exact congrArg (c :: ·) ih
      | cons u rest => exact congrArg (c :: ·) ih

namespace Path

theorem ofSegment?_of_isBlank (s : Segment) (h : isBlank s = true) : ofSegment? s = none := by
  have hb : s = [] ∨ s = [dot] := by simpa [isBlank] using h
  simp [ofSegment?, hb]

theorem isSome_ofSegment? (s : Segment) (h : isBlank s = false) : (ofSegment? s).isSome := by
  have hb : ¬ (s = [] ∨ s = [dot]) := by
    intro hb
    simp [isBlank, hb] at h
  rw [ofSegment?, if_neg hb]
  split_ifs <;> rfl

theorem filterMap_trimBlank (ss : List Segment) :
    (trimBlank ss).filterMap ofSegment? = ss.filterMap ofSegment? := by
  induction ss using List.reverseRecOn with
  | nil => rfl
  | append_singleton ss s ih =>
    cases hs : isBlank s with
    | true =>
      have ht : trimBlank (ss ++ [s]) = trimBlank ss := by simp [trimBlank, hs]
      rw [ht, ih, List.filterMap_append]
      simp [ofSegment?_of_isBlank s hs]
    | false =>
      have ht : trimBlank (ss ++ [s]) = ss ++ [s] := by simp [trimBlank, hs]
      rw [ht]

/-- What is left of a trimmed list ends with something that is a component. -/
theorem trimBlank_eq_nil_or (ss : List Segment) :
    trimBlank ss = [] ∨ ∃ body s, trimBlank ss = body ++ [s] ∧ isBlank s = false := by
  induction ss using List.reverseRecOn with
  | nil => exact Or.inl rfl
  | append_singleton ss s ih =>
    cases hs : isBlank s with
    | true =>
      have ht : trimBlank (ss ++ [s]) = trimBlank ss := by simp [trimBlank, hs]
      rw [ht]
      exact ih
    | false => exact Or.inr ⟨ss, s, by simp [trimBlank, hs], hs⟩

theorem mem_of_mem_trimBlank (ss : List Segment) (s : Segment) (h : s ∈ trimBlank ss) :
    s ∈ ss := by
  have hm := List.mem_reverse.mp h
  exact List.mem_reverse.mp ((List.dropWhile_sublist _).subset hm)

theorem steps_mk_joinSegments (ss : List Segment) (hne : ss ≠ []) (h : ∀ s ∈ ss, slash ∉ s) :
    (Path.mk (joinSegments ([] :: ss))).isAbsolute = true ∧
      (Path.mk (joinSegments ([] :: ss))).steps = ss.filterMap ofSegment? := by
  constructor
  · cases ss with
    | nil => exact absurd rfl hne
    | cons s rest => rfl
  · rw [steps, segments_joinSegments _ (by simp) (by simpa using h)]
    rfl

/-- Below a root, the parent is one step back. Only where there is no step there is no parent. -/
theorem parent?_of_isAbsolute (p : Path) (h : p.isAbsolute = true) :
    (p.steps = [] ∧ p.parent? = none) ∨
    ∃ q, p.parent? = some q ∧ q.isAbsolute = true ∧ p.steps ≠ [] ∧ q.steps = p.steps.dropLast := by
  obtain ⟨cs, hcs⟩ := (isAbsolute_iff p).mp h
  have hsl : ∀ s ∈ segments cs, slash ∉ s := no_slash_of_mem_segments cs
  have hst : p.steps = (trimBlank (segments cs)).filterMap ofSegment? := by
    rw [filterMap_trimBlank, steps, hcs]
    simp [segments, ofSegment?]
  obtain hb | ⟨body, s, hb, hs⟩ := trimBlank_eq_nil_or (segments cs)
  · left
    rw [hst, hb]
    refine ⟨rfl, ?_⟩
    simp [parent?, hcs, segments, hb]
  · right
    obtain ⟨c, hc⟩ := Option.isSome_iff_exists.mp (isSome_ofSegment? s hs)
    have hsteps : p.steps = body.filterMap ofSegment? ++ [c] := by
      rw [hst, hb, List.filterMap_append]
      simp [hc]
    have hne : p.steps ≠ [] := by simp [hsteps]
    have hl : p.steps.dropLast = (trimBlank body).filterMap ofSegment? := by
      rw [hsteps, List.dropLast_concat, filterMap_trimBlank]
    rw [hl]
    cases ht : trimBlank body with
    | nil => exact ⟨⟨[slash]⟩, by simp [parent?, hcs, segments, hb, ht], rfl, hne, rfl⟩
    | cons t rest =>
      have hno : ∀ u ∈ t :: rest, slash ∉ u := by
        intro u hu
        have hu' := mem_of_mem_trimBlank body u (ht ▸ hu)
        apply hsl u
        apply mem_of_mem_trimBlank
        rw [hb]
        exact List.mem_append_left _ hu'
      obtain ⟨ha, hq⟩ := steps_mk_joinSegments (t :: rest) (by simp) hno
      exact ⟨_, by simp [parent?, hcs, segments, hb, ht], ha, hne, hq⟩

/-- The first segments of a relative path make a relative path. -/
theorem isAbsolute_joinSegments_of_isPrefix (p : Path) (ss : List Segment)
    (h : p.isAbsolute = false) (hne : p ≠ empty) (hp : ss <+: segments p.chars) :
    (Path.mk (joinSegments ss)).isAbsolute = false := by
  cases ss with
  | nil => rfl
  | cons s rest =>
    obtain ⟨more, hm⟩ := hp
    have hno : ∀ t ∈ s :: rest, slash ∉ t := fun t ht =>
      no_slash_of_mem_segments p.chars t (hm ▸ List.mem_append_left _ ht)
    rw [Bool.eq_false_iff]
    intro ha
    have hs := head?_segments_of_isAbsolute _ ha
    rw [segments_joinSegments _ (by simp) hno] at hs
    apply head?_segments_of_relative p h hne
    rw [← hm]
    exact hs

theorem trimBlank_isPrefix (ss : List Segment) : trimBlank ss <+: ss :=
  List.rdropWhile_prefix _ ss

/-- Above a relative path there is no absolute one. -/
theorem parent?_of_relative (p q : Path) (h : p.isAbsolute = false) (hq : p.parent? = some q) :
    q.isAbsolute = false := by
  by_cases hne : p = empty
  · rw [hne] at hq
    cases hq
  · rw [parent?] at hq
    have hrest (ss : List Segment) : trimBlank (trimBlank ss).dropLast <+: ss := by
      have hlast := List.dropLast_prefix (trimBlank ss)
      exact (trimBlank_isPrefix _).trans (hlast.trans (trimBlank_isPrefix ss))
    split at hq
    · cases hq
    · next rest hs => exact absurd (by rw [hs]; rfl) (head?_segments_of_relative p h hne)
    · next rest hs =>
      split at hq
      · cases hq
        rfl
      · cases hq
        apply isAbsolute_joinSegments_of_isPrefix p _ h hne
        rw [hs]
        exact (List.prefix_cons_inj _).mpr (hrest rest)
    · cases hq
      exact isAbsolute_joinSegments_of_isPrefix p _ h hne (hrest _)

end Path
end Monorepo
