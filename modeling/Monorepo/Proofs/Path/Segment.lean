import Mathlib.Data.List.Basic
import Monorepo.Path.Basic

/-! Segments and the components that they stand for. Nothing here asks whether a path is normal:
the laws hold of every text. -/
namespace Monorepo

theorem segments_ne_nil (cs : List Utf8.Symbol) : segments cs ≠ [] := by
  cases cs with
  | nil => simp [segments]
  | cons c cs =>
    simp only [segments]
    split
    · simp
    · split <;> simp

/-- A slash ends a segment, whatever stands before it. -/
theorem segments_append_slash (a b : List Utf8.Symbol) :
    segments (a ++ slash :: b) = segments a ++ segments b := by
  induction a with
  | nil => simp [segments]
  | cons c a ih =>
    by_cases hc : c = slash
    · simp [segments, hc, ih]
    · cases hs : segments a with
      | nil => exact absurd hs (segments_ne_nil a)
      | cons s rest => simp [segments, hc, ih, hs]

theorem segments_of_no_slash (s : List Utf8.Symbol) (h : slash ∉ s) : segments s = [s] := by
  induction s with
  | nil => rfl
  | cons c s ih =>
    simp only [List.mem_cons, not_or] at h
    simp [segments, Ne.symm h.1, ih h.2]

theorem no_slash_of_mem_segments (cs : List Utf8.Symbol) (s : Segment) (h : s ∈ segments cs) :
    slash ∉ s := by
  induction cs generalizing s with
  | nil => simp_all [segments]
  | cons c cs ih =>
    by_cases hc : c = slash
    · simp only [segments, hc, if_true, List.mem_cons] at h
      obtain rfl | h := h
      · simp
      · exact ih s h
    · cases hs : segments cs with
      | nil => exact absurd hs (segments_ne_nil cs)
      | cons t rest =>
        simp only [segments, hc, if_false, hs, List.mem_cons] at h
        obtain rfl | h := h
        · have ht := ih t (by simp [hs])
          simp [Ne.symm hc, ht]
        · exact ih s (by simp [hs, h])

theorem head?_segments_append_slash (a b : List Utf8.Symbol) :
    (segments (a ++ slash :: b)).head? = (segments a).head? := by
  rw [segments_append_slash]
  exact List.head?_append_of_ne_nil _ (segments_ne_nil a)

theorem exists_eq_append_of_head?_segments (t k : List Utf8.Symbol)
    (h : (segments t).head? = some k) :
    ∃ rest, t = k ++ rest ∧ (rest = [] ∨ ∃ cs, rest = slash :: cs) := by
  induction t generalizing k with
  | nil =>
    cases h
    exact ⟨[], rfl, Or.inl rfl⟩
  | cons c t ih =>
    by_cases hc : c = slash
    · rw [segments, if_pos hc] at h
      cases h
      exact ⟨c :: t, rfl, Or.inr ⟨t, by rw [hc]⟩⟩
    · cases hs : segments t with
      | nil => exact absurd hs (segments_ne_nil t)
      | cons s rest =>
        obtain ⟨u, hu, hr⟩ := ih s (by rw [hs]; rfl)
        rw [segments, if_neg hc, hs] at h
        cases h
        exact ⟨u, by rw [hu]; rfl, hr⟩

namespace Component

def IsName (s : Segment) : Prop := s ≠ [] ∧ s ≠ [dot] ∧ s ≠ [dot, dot] ∧ slash ∉ s

instance (s : Segment) : Decidable (IsName s) := inferInstanceAs (Decidable (_ ∧ _))

def IsStep : Component → Prop
  | parent => True
  | name s => IsName s
  | _ => False

theorem ofSegment?_eq_some_iff (s : Segment) (c : Component) (hs : slash ∉ s) :
    ofSegment? s = some c ↔ IsStep c ∧ c.chars = s := by
  by_cases hb : s = [] ∨ s = [dot]
  · have hn : ofSegment? s = none := by simp [ofSegment?, hb]
    rw [hn]
    constructor
    · intro h
      cases h
    · rintro ⟨hc, rfl⟩
      cases c <;> simp_all [IsStep, IsName, chars]
  · by_cases hp : s = [dot, dot]
    · subst hp
      have hn : ofSegment? [dot, dot] = some parent := rfl
      rw [hn]
      constructor
      · intro h
        cases h
        exact ⟨trivial, rfl⟩
      · rintro ⟨hc, he⟩
        cases c <;> simp_all [IsStep, IsName, chars]
    · have hn : ofSegment? s = some (name s) := by simp [ofSegment?, hb, hp]
      obtain ⟨h0, h1⟩ := not_or.mp hb
      rw [hn]
      constructor
      · intro h
        cases h
        exact ⟨⟨h0, h1, hp, hs⟩, rfl⟩
      · rintro ⟨hc, he⟩
        cases c <;> simp_all [IsStep, IsName, chars]

theorem IsStep.no_slash {c : Component} (h : IsStep c) : slash ∉ c.chars := by
  cases c with
  | root => exact h.elim
  | current => exact h.elim
  | parent => simp [chars]
  | name s => exact h.2.2.2

theorem IsStep.chars_ne_dot {c : Component} (h : IsStep c) : c.chars ≠ [dot] := by
  cases c with
  | root => exact h.elim
  | current => exact h.elim
  | parent => simp [chars]
  | name s => exact h.2.1

theorem IsStep.chars_ne_nil {c : Component} (h : IsStep c) : c.chars ≠ [] := by
  cases c with
  | root => exact h.elim
  | current => exact h.elim
  | parent => simp [chars]
  | name s => exact h.1

theorem IsStep.ofSegment?_chars {c : Component} (h : IsStep c) : ofSegment? c.chars = some c :=
  (ofSegment?_eq_some_iff _ _ h.no_slash).mpr ⟨h, rfl⟩

end Component
end Monorepo
