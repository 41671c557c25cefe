import Mathlib.Data.Char
import Mathlib.Data.List.Forall2
import Monorepo.Glob.Walk
import Monorepo.Proofs.Outcome
import Monorepo.Proofs.Path.Segment
import Monorepo.Proofs.Text.Utf8

/-! Patterns that one text fits. A text without magic is a pattern of itself, and any text is once
its special characters stand in brackets. Either way the pattern has a piece for each segment of the
text. -/
namespace Monorepo.Glob
open Utf8 (Symbol)

variable {cs ds s u : List Char} {c : Char} {ts vs : List Token} {position : Nat} {fresh : Bool}

def IsSpecial (c : Char) : Prop := c = '?' ∨ c = '*' ∨ c = '[' ∨ c = ']'

/-- Only `s` fits the pattern `cs`, which has the tokens `ts`: each character of it is plain or
stands in brackets. -/
inductive Spells : List Char → List Char → List Token → Prop
  | nil : Spells [] [] []
  | plain {c : Char} {cs s : List Char} {ts : List Token} (hc : c ≠ '*' ∧ c ≠ '?' ∧ c ≠ '[')
    (h : Spells cs s ts) : Spells (c :: cs) (c :: s) (.char c :: ts)
  | quoted {c : Char} {cs s : List Char} {ts : List Token}
    (hc : IsSpecial c) (h : Spells cs s ts) :
    Spells ('[' :: c :: ']' :: cs) (c :: s) (.within [(c, c)] :: ts)

theorem Spells.append (h : Spells cs s ts) (h' : Spells ds u vs) :
    Spells (cs ++ ds) (s ++ u) (ts ++ vs) := by
  induction h with
  | nil => exact h'
  | plain hc _ ih => exact .plain hc ih
  | quoted hc _ ih => exact .quoted hc ih

theorem readTokens_cons {t : Token} {n : Nat}
    (h : readToken position fresh (c :: cs) = .ok (t, n + 1)) :
    ∃ position' fresh', readTokens position fresh (c :: cs) =
      (readTokens position' fresh' (cs.drop n)).map (t :: ·) := by
  have hmax : max (n + 1) 1 = n + 1 := Nat.max_eq_left (Nat.succ_pos n)
  refine ⟨position + (n + 1), decide ((c :: cs)[n]? = some '/'), ?_⟩
  rw [readTokens, h]
  change (readTokens (position + max (n + 1) 1) (decide ((c :: cs)[max (n + 1) 1 - 1]? = some '/'))
    ((c :: cs).drop (max (n + 1) 1)) >>= fun ts => pure (t :: ts)) = _
  rw [hmax]
  exact bind_pure_comp _ _

theorem readToken_plain (hc : c ≠ '*' ∧ c ≠ '?' ∧ c ≠ '[') (cs : List Char) :
    readToken position fresh (c :: cs) = .ok (.char c, 1) := by
  rw [readToken.eq_def]
  split <;> simp_all

theorem readToken_quoted (hc : IsSpecial c) (cs : List Char) :
    readToken position fresh ('[' :: c :: ']' :: cs) = .ok (.within [(c, c)], 3) := by
  have hread : readBrackets? (c :: ']' :: cs) = some (.within [(c, c)], cs) := by
    obtain rfl | rfl | rfl | rfl := hc <;> simp [readBrackets?, readSet]
  simp only [readToken, hread, List.length_cons]
  rw [show 1 + (cs.length + 1 + 1 - cs.length) = 3 by omega]

/-- The tokens of a pattern that spells a text, in front of any other. -/
theorem Spells.readTokens (h : Spells cs s ts) (tail : List Char) (position : Nat) (fresh : Bool) :
    ∃ position' fresh', readTokens position fresh (cs ++ tail) =
      (Glob.readTokens position' fresh' tail).map (ts ++ ·) := by
  have hmap (x : Except PatternFault (List Token)) (t : Token) (ts : List Token) :
      (x.map (ts ++ ·)).map (t :: ·) = x.map (t :: ts ++ ·) := by cases x <;> rfl
  induction h generalizing position fresh with
  | nil =>
    refine ⟨position, fresh, ?_⟩
    rw [List.nil_append]
    cases Glob.readTokens position fresh tail <;> rfl
  | @plain c cs s ts hc _ ih =>
    obtain ⟨position₁, fresh₁, hstep⟩ := readTokens_cons (readToken_plain hc (cs ++ tail))
    obtain ⟨position', fresh', hrest⟩ := ih position₁ fresh₁
    refine ⟨position', fresh', hstep.trans ?_⟩
    rw [List.drop_zero, hrest, hmap]
  | @quoted c cs s ts hc _ ih =>
    obtain ⟨position₁, fresh₁, hstep⟩ := readTokens_cons (readToken_quoted hc (cs ++ tail))
    obtain ⟨position', fresh', hrest⟩ := ih position₁ fresh₁
    refine ⟨position', fresh', hstep.trans ?_⟩
    rw [show List.drop 2 (c :: ']' :: (cs ++ tail)) = cs ++ tail from rfl, hrest, hmap]

theorem Spells.parse (h : Spells cs s ts) : parse cs = .ok ts := by
  obtain ⟨position, fresh, hread⟩ := h.readTokens [] 0 true
  rw [List.append_nil, Glob.readTokens] at hread
  rw [Glob.parse, hread]
  exact congrArg Except.ok (List.append_nil ts)

/-- A text without slashes in front goes into the first segment. -/
theorem segments_append_of_no_slash {u cs t : List Symbol} {rest : List Segment} (hu : slash ∉ u)
    (h : segments cs = t :: rest) : segments (u ++ cs) = (u ++ t) :: rest := by
  induction u with
  | nil => exact h
  | cons c u ih =>
    obtain ⟨hc, hu⟩ := not_or.mp (mt List.mem_cons.mpr hu)
    rw [List.cons_append, segments, if_neg (Ne.symm hc), ih hu, List.cons_append]

def HasSegments (s : List Char) (ss : List (List Char)) : Prop :=
  segments (Path.ofChars s).chars = ss.map (List.map .char)

theorem HasSegments.slash {ss : List (List Char)} (h : HasSegments s ss) :
    HasSegments ('/' :: s) ([] :: ss) := congrArg ([] :: ·) h

theorem HasSegments.append {t : List Char} {ss : List (List Char)} (h : HasSegments s (t :: ss))
    (hu : '/' ∉ u) : HasSegments (u ++ s) ((u ++ t) :: ss) := by
  have hslash : Monorepo.slash ∉ u.map Symbol.char := by simpa using hu
  rw [HasSegments, Path.ofChars, List.map_append, List.map_cons, List.map_append]
  exact segments_append_of_no_slash hslash h

/-- The segments of a pattern that spells a text spell those of the text, with tokens of the
pattern. -/
theorem Spells.segments (h : Spells cs s ts) :
    ∃ css ss, HasSegments cs css ∧ HasSegments s ss ∧
      List.Forall₂ (fun cs' s' => ∃ ts', Spells cs' s' ts' ∧ ts' ⊆ ts) css ss := by
  induction h with
  | nil => exact ⟨[[]], [[]], rfl, rfl, .cons ⟨[], .nil, List.Subset.refl _⟩ .nil⟩
  | @plain c cs s ts hc _ ih =>
    obtain ⟨css, ss, hcss, hss, ih⟩ := ih
    by_cases hslash : c = '/'
    · subst hslash
      refine ⟨[] :: css, [] :: ss, hcss.slash, hss.slash,
        .cons ⟨[], .nil, List.nil_subset _⟩ (ih.imp fun _ _ h => ?_)⟩
      exact h.imp fun _ h => ⟨h.1, List.subset_cons_of_subset _ h.2⟩
    · have hu : '/' ∉ [c] := by simpa [eq_comm] using hslash
      cases ih with
      | nil => exact absurd hcss (segments_ne_nil _)
      | cons h hrest =>
        refine ⟨_, _, hcss.append hu, hss.append hu,
          .cons (h.imp' _ fun _ h => ⟨.plain hc h.1, List.cons_subset_cons _ h.2⟩)
            (hrest.imp fun _ _ h => ?_)⟩
        exact h.imp fun _ h => ⟨h.1, List.subset_cons_of_subset _ h.2⟩
  | @quoted c cs s ts hc _ ih =>
    obtain ⟨css, ss, hcss, hss, ih⟩ := ih
    have hslash : '/' ≠ c := by
      rintro rfl
      revert hc
      simp [IsSpecial]
    have hu : '/' ∉ ['[', c, ']'] := by simpa
    cases ih with
    | nil => exact absurd hcss (segments_ne_nil _)
    | cons h hrest =>
      refine ⟨_, _, hcss.append hu, hss.append (u := [c]) (by simpa),
        .cons (h.imp' _ fun _ h => ⟨.quoted hc h.1, List.cons_subset_cons _ h.2⟩)
          (hrest.imp fun _ _ h => ?_)⟩
      exact h.imp fun _ h => ⟨h.1, List.subset_cons_of_subset _ h.2⟩

end Monorepo.Glob
