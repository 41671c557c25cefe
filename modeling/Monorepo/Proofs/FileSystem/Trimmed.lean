import Monorepo.Proofs.FileSystem.Directory
import Monorepo.Proofs.FileSystem.RealPath

/-! A path put together from the segments of a text again. It has lost repeated slashes, so it is
never too long where the text is not, and it leads into the same directory. -/
namespace Monorepo
open Monorepo.Path Component

namespace Path

/-- `q` is `p` with fewer slashes: it takes the same steps and ends with a slash just if `p`
does. -/
structure IsTrimmed (q p : Path) : Prop where
  isAbsolute : q.isAbsolute = true
  isAbsolute_of : p.isAbsolute = true
  steps : q.steps = p.steps
  sublist : q.chars.Sublist p.chars
  last : q.chars.getLast? = some slash ↔ p.chars.getLast? = some slash
  mem : ∀ c ≠ slash, c ∈ p.chars → c ∈ q.chars

variable {p q r : Path} {s : Segment}

theorem IsTrimmed.refl (h : p.isAbsolute = true) : IsTrimmed p p :=
  ⟨h, h, rfl, .refl _, Iff.rfl, fun _ _ hc => hc⟩

theorem IsTrimmed.trans (h : IsTrimmed r q) (h' : IsTrimmed q p) : IsTrimmed r p where
  isAbsolute := h.isAbsolute
  isAbsolute_of := h'.isAbsolute_of
  steps := h.steps.trans h'.steps
  sublist := h.sublist.trans h'.sublist
  last := h.last.trans h'.last
  mem c hc hp := h.mem c hc (h'.mem c hc hp)

theorem IsTrimmed.normalize_eq (h : IsTrimmed q p) : q.normalize = p.normalize := by
  refine normalize_congr q p ?_
  rw [components_of_isAbsolute q h.isAbsolute, components_of_isAbsolute p h.isAbsolute_of, h.steps]

theorem chars_join (hp : p.isAbsolute = true) (hs : (Path.mk s).isAbsolute = false) :
    (p.join ⟨s⟩).chars =
      if p.chars.getLast? = some slash then p.chars ++ s else p.chars ++ slash :: s := by
  rw [join, if_neg (by simp [hs, isEmpty_of_isAbsolute p hp])]
  split_ifs <;> rfl

theorem getLast?_append_slash_iff (cs s : List Utf8.Symbol) :
    (cs ++ slash :: s).getLast? = some slash ↔ s = [] ∨ s.getLast? = some slash := by
  rw [List.getLast?_append_of_ne_nil _ (List.cons_ne_nil _ _)]
  by_cases he : s = []
  · subst he
    exact iff_of_true rfl (Or.inl rfl)
  · rw [or_iff_right he, List.getLast?_cons_of_ne_nil he]

theorem getLast?_join_iff (hp : p.isAbsolute = true) (hs : (Path.mk s).isAbsolute = false) :
    (p.join ⟨s⟩).chars.getLast? = some slash ↔ s = [] ∨ s.getLast? = some slash := by
  rw [chars_join hp hs]
  split_ifs with hl
  · by_cases he : s = []
    · subst he
      rw [List.append_nil]
      exact iff_of_true hl (Or.inl rfl)
    · rw [List.getLast?_append_of_ne_nil _ he, or_iff_right he]
  · exact getLast?_append_slash_iff _ _

theorem mem_chars_join {c : Utf8.Symbol} (hp : p.isAbsolute = true)
    (hs : (Path.mk s).isAbsolute = false)
    (hc : c ≠ slash) : c ∈ (p.join ⟨s⟩).chars ↔ c ∈ p.chars ∨ c ∈ s := by
  rw [chars_join hp hs]
  split_ifs
  · exact List.mem_append
  · rw [List.mem_append, List.mem_cons, or_iff_right hc]

theorem IsTrimmed.join (h : IsTrimmed q p) (s : Segment) : IsTrimmed (q.join ⟨s⟩) (p.join ⟨s⟩) := by
  by_cases hs : (Path.mk s).isAbsolute = true
  · rw [join_of_isAbsolute _ _ hs, join_of_isAbsolute _ _ hs]
    exact .refl hs
  · have hs : (Path.mk s).isAbsolute = false := by simpa using hs
    refine ⟨isAbsolute_join _ _ h.isAbsolute, isAbsolute_join _ _ h.isAbsolute_of, ?_, ?_, ?_, ?_⟩
    · rw [steps_join _ _ hs h.isAbsolute, steps_join _ _ hs h.isAbsolute_of, h.steps]
    · rw [chars_join h.isAbsolute hs, chars_join h.isAbsolute_of hs]
      simp only [h.last]
      split_ifs
      · exact h.sublist.append (.refl _)
      · exact h.sublist.append (.refl _)
    · rw [getLast?_join_iff h.isAbsolute hs, getLast?_join_iff h.isAbsolute_of hs]
    · intro c hc
      rw [mem_chars_join h.isAbsolute hs hc, mem_chars_join h.isAbsolute_of hs hc]
      exact Or.imp_left (h.mem c hc)

end Path

namespace FileSystem
variable {fs : FileSystem} {p q : Path}

end FileSystem
end Monorepo
