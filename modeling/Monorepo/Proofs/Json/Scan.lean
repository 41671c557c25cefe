import Mathlib.Data.List.TakeWhile
import Monorepo.Json.Scan
import Monorepo.Proofs.Outcome

/-! Words of a longer text. What is read from a text is read alike when more text is put behind it,
if that does not begin as a number goes on. -/
namespace Monorepo.Json

def EndsNumber (tail : List Char) : Prop :=
  ∀ c ∈ tail.head?, c.isDigit = false ∧ c ≠ '.' ∧ c ≠ 'e' ∧ c ≠ 'E'

variable {care : Care} {c : Char} {cs rest tail : List Char}

theorem skipBlank_append (h : skipBlank cs = c :: rest) :
    skipBlank (cs ++ tail) = c :: (rest ++ tail) := by
  rw [skipBlank] at h
  rw [skipBlank, List.dropWhile_append, h]
  rfl

theorem skipBlank_append_of_blank (h : skipBlank cs = []) :
    skipBlank (cs ++ tail) = skipBlank tail := by
  rw [skipBlank] at h
  rw [skipBlank, List.dropWhile_append, h]
  rfl

theorem readWord_append {word : List Char} (h : readWord word cs = .ok rest) :
    readWord word (cs ++ tail) = .ok (rest ++ tail) := by
  induction word generalizing cs with
  | nil =>
    cases h
    rfl
  | cons w word ih =>
    cases cs with
    | nil => cases h
    | cons c cs =>
      rw [readWord] at h
      rw [List.cons_append, readWord]
      split_ifs at h ⊢ with hc
      · exact ih h
      · cases h

theorem takeWhile_isDigit_append (cs : List Char) (ht : EndsNumber tail) :
    (cs ++ tail).takeWhile Char.isDigit = cs.takeWhile Char.isDigit := by
  have htail : tail.takeWhile Char.isDigit = [] := by
    cases tail with
    | nil => rfl
    | cons c tail => rw [List.takeWhile_cons, (ht c rfl).1]; rfl
  rw [List.takeWhile_append, htail]
  split_ifs with h
  · rw [List.append_nil]
    exact ((List.takeWhile_prefix _).eq_of_length h).symm
  · rfl

theorem dropWhile_isDigit_append (cs : List Char) (ht : EndsNumber tail) :
    (cs ++ tail).dropWhile Char.isDigit = cs.dropWhile Char.isDigit ++ tail := by
  have h := List.takeWhile_append_dropWhile (p := Char.isDigit) (l := cs ++ tail)
  rw [takeWhile_isDigit_append cs ht] at h
  conv_rhs at h => rw [← List.takeWhile_append_dropWhile (p := Char.isDigit) (l := cs)]
  rw [List.append_assoc] at h
  exact List.append_cancel_left h

theorem any_isDigit_head?_append (cs : List Char) (ht : EndsNumber tail) :
    (cs ++ tail).head?.any Char.isDigit = cs.head?.any Char.isDigit := by
  cases cs with
  | cons c cs => rfl
  | nil =>
    cases tail with
    | nil => rfl
    | cons c tail => exact (ht c rfl).1

theorem readWhole_append {whole : List Char} (ht : EndsNumber tail)
    (h : readWhole care cs = .ok (whole, rest)) :
    readWhole care (cs ++ tail) = .ok (whole, rest ++ tail) := by
  unfold readWhole at h
  split at h
  · cases h
  · next cs =>
    split_ifs at h with hd
    · cases h
    · cases h
      rw [List.cons_append, readWhole, any_isDigit_head?_append _ ht, if_neg hd]
  · next c cs hz =>
    split_ifs at h with hd
    · cases h
      rw [List.cons_append, readWhole, if_pos hd, takeWhile_isDigit_append cs ht,
        dropWhile_isDigit_append cs ht]
      exact hz
    · cases h

theorem readFraction_of_ne (h : cs.head? ≠ some '.') : readFraction care cs = .ok ([], cs) := by
  unfold readFraction
  split
  · exact absurd rfl h
  · rfl

theorem readFraction_append {fraction : List Char} (ht : EndsNumber tail)
    (h : readFraction care cs = .ok (fraction, rest)) :
    readFraction care (cs ++ tail) = .ok (fraction, rest ++ tail) := by
  by_cases hdot : cs.head? = some '.'
  · obtain ⟨cs, rfl⟩ := List.head?_eq_some_iff.mp hdot
    rw [readFraction] at h
    rw [List.cons_append, readFraction, takeWhile_isDigit_append cs ht,
      dropWhile_isDigit_append cs ht]
    cases hds : cs.takeWhile Char.isDigit with
    | nil =>
      rw [hds] at h
      split at h <;> simp_all [numberCut, stopAt, stopBefore]
    | cons d ds =>
      rw [hds] at h
      cases h
      rfl
  · rw [readFraction_of_ne hdot] at h
    cases h
    apply readFraction_of_ne
    cases cs with
    | cons c cs => exact hdot
    | nil => exact fun hd => (ht '.' hd).2.1 rfl

theorem readExponent_append {exponent : Option (Char × Option Char × List Char)}
    (ht : EndsNumber tail) (h : readExponent care cs = .ok (exponent, rest)) :
    readExponent care (cs ++ tail) = .ok (exponent, rest ++ tail) := by
  cases cs with
  | nil =>
    cases h
    cases tail with
    | nil => rfl
    | cons c tail => rw [List.nil_append, readExponent, if_pos (ht c rfl).2.2]
  | cons e cs =>
    rw [readExponent] at h
    rw [List.cons_append, readExponent]
    by_cases he : e ≠ 'e' ∧ e ≠ 'E'
    · rw [if_pos he] at h ⊢
      cases h
      rfl
    · rw [if_neg he] at h ⊢
      have hdigit (sign? : Option Char) (d : Char) (ds : List Char)
          (h : (if d.isDigit = true then .ok (some (e, sign?, (d :: ds).takeWhile Char.isDigit),
              (d :: ds).dropWhile Char.isDigit) else stopBefore .invalidNumber ds :
                Scan (Option (Char × Option Char × List Char))) = .ok (exponent, rest)) :
          (if d.isDigit = true then .ok (some (e, sign?, (d :: ds ++ tail).takeWhile Char.isDigit),
              (d :: ds ++ tail).dropWhile Char.isDigit)
              else stopBefore .invalidNumber (ds ++ tail) :
                Scan (Option (Char × Option Char × List Char))) = .ok (exponent, rest ++ tail) := by
        split_ifs at h ⊢
        · cases h
          rw [takeWhile_isDigit_append _ ht, dropWhile_isDigit_append _ ht]
        · cases h
      cases cs with
      | nil => cases h
      | cons c cs =>
        simp only [List.cons_append, List.head?_cons, List.drop_one, List.tail_cons] at h ⊢
        split_ifs at h ⊢ with hs
        · cases cs with
          | nil => cases h
          | cons d ds => exact hdigit _ d ds h
        · exact hdigit _ c cs h

theorem ite_stopBefore_eq_ok_iff (p : Prop) [Decidable p] (flaw : Flaw) (rest : List Char) :
    (if p then stopBefore flaw rest else .ok ()) = (.ok () : Except Stop Unit) ↔ ¬ p := by
  split_ifs with hp <;> simp [stopBefore, hp]

/-- Whether a number is in range does not depend on what stands behind it. -/
theorem checkRange_congr {n : Numeral} (h : n.checkRange rest = .ok ()) (rest' : List Char) :
    n.checkRange rest' = .ok () := by
  unfold Numeral.checkRange at h ⊢
  dsimp only at h ⊢
  by_cases hshort : n.fraction = [] ∧ n.exponent = none ∧ (takeDigits 0 n.whole).2 = []
  · rw [if_pos hshort]
  · rw [if_neg hshort] at h ⊢
    cases he : n.exponent with
    | none => simpa only [he, ite_stopBefore_eq_ok_iff] using h
    | some x =>
      obtain ⟨e, sign?, ds⟩ := x
      simp only [he] at h ⊢
      cases ho : overlongExponent? 0 ds with
      | none => simpa only [ho, ite_stopBefore_eq_ok_iff] using h
      | some ds' => simpa only [ho, ite_stopBefore_eq_ok_iff] using h

theorem readNumber_eq_ok_iff {literal : List Char} :
    readNumber care cs = .ok (literal, rest) ↔
      ∃ whole cs₁ fraction cs₂ exponent,
        readWhole care (if cs.head? = some '-' then cs.drop 1 else cs) = .ok (whole, cs₁) ∧
        readFraction care cs₁ = .ok (fraction, cs₂) ∧
        readExponent care cs₂ = .ok (exponent, rest) ∧
        (care = .full →
          (Numeral.mk (cs.head? = some '-') whole fraction exponent).checkRange rest = .ok ()) ∧
        literal = (Numeral.mk (cs.head? = some '-') whole fraction exponent).chars := by
  unfold readNumber
  dsimp only
  constructor
  · intro h
    obtain ⟨⟨whole, cs₁⟩, hw, h⟩ := (bind_eq_ok_iff _ _ _).mp h
    obtain ⟨⟨fraction, cs₂⟩, hf, h⟩ := (bind_eq_ok_iff _ _ _).mp h
    obtain ⟨⟨exponent, cs₃⟩, he, h⟩ := (bind_eq_ok_iff _ _ _).mp h
    dsimp only at h
    split_ifs at h with hcare
    · obtain ⟨⟨⟩, hr, h⟩ := (bind_eq_ok_iff _ _ _).mp h
      cases h
      exact ⟨whole, cs₁, fraction, cs₂, exponent, hw, hf, he, fun _ => hr, rfl⟩
    · cases h
      exact ⟨whole, cs₁, fraction, cs₂, exponent, hw, hf, he, fun hc => absurd hc hcare, rfl⟩
  · rintro ⟨whole, cs₁, fraction, cs₂, exponent, hw, hf, he, hr, rfl⟩
    refine (bind_eq_ok_iff _ _ _).mpr ⟨_, hw, ?_⟩
    refine (bind_eq_ok_iff _ _ _).mpr ⟨_, hf, ?_⟩
    refine (bind_eq_ok_iff _ _ _).mpr ⟨_, he, ?_⟩
    dsimp only
    split_ifs with hcare
    · rw [hr hcare]
      rfl
    · rfl

theorem readNumber_append {literal : List Char} (ht : EndsNumber tail) (hne : cs ≠ [])
    (h : readNumber care cs = .ok (literal, rest)) :
    readNumber care (cs ++ tail) = .ok (literal, rest ++ tail) := by
  obtain ⟨whole, cs₁, fraction, cs₂, exponent, hw, hf, he, hr, rfl⟩ := readNumber_eq_ok_iff.mp h
  obtain ⟨c, cs, rfl⟩ := List.exists_cons_of_ne_nil hne
  refine readNumber_eq_ok_iff.mpr ⟨whole, cs₁ ++ tail, fraction, cs₂ ++ tail, exponent, ?_,
    readFraction_append ht hf, readExponent_append ht he, fun hc => checkRange_congr (hr hc) _, rfl⟩
  rw [List.cons_append, List.head?_cons] at *
  split_ifs at hw ⊢ with hs
  · exact readWhole_append ht hw
  · exact readWhole_append ht hw

theorem hexQuad?_append {n : Nat} (h : hexQuad? cs = some n) (tail : List Char) :
    4 ≤ cs.length ∧ hexQuad? (cs ++ tail) = some n := by
  match cs with
  | a :: b :: c :: d :: cs => exact ⟨by simp, h⟩
  | [] | [_] | [_, _] | [_, _, _] => cases h

theorem readQuad_eq_ok_iff {n : Nat} :
    readQuad cs = .ok n ↔ 4 ≤ Utf8.size (cs.take 4) ∧ hexQuad? cs = some n := by
  unfold readQuad
  split_ifs with hs
  · exact ⟨nofun, fun h => absurd h.1 (Nat.not_le.mpr hs)⟩
  · cases hq : hexQuad? cs <;> simp [Nat.not_lt.mp hs]

theorem readQuad_append {n : Nat} (h : readQuad cs = .ok n) (tail : List Char) :
    4 ≤ cs.length ∧ readQuad (cs ++ tail) = .ok n := by
  obtain ⟨hs, hq⟩ := readQuad_eq_ok_iff.mp h
  obtain ⟨hl, hq'⟩ := hexQuad?_append hq tail
  refine ⟨hl, readQuad_eq_ok_iff.mpr ⟨?_, hq'⟩⟩
  rwa [List.take_append_of_le_length hl]

theorem readSecondHalf_append {first : Nat} {x : Char} (h : readSecondHalf first cs = .ok x)
    (tail : List Char) :
    6 ≤ cs.length ∧ readSecondHalf first (cs ++ tail) = .ok x := by
  match cs with
  | [] => cases h
  | [c] =>
    unfold readSecondHalf at h
    dsimp only at h
    split_ifs at h <;> cases h
  | c :: u :: cs =>
    rw [List.cons_append, List.cons_append]
    unfold readSecondHalf at h ⊢
    dsimp only at h ⊢
    split_ifs at h ⊢ with hc hu
    · cases h
    · cases h
    · obtain ⟨second, hq, h⟩ := (bind_eq_ok_iff _ _ _).mp h
      obtain ⟨hl, hq'⟩ := readQuad_append hq tail
      refine ⟨by simpa using hl, (bind_eq_ok_iff _ _ _).mpr ⟨second, hq', ?_⟩⟩
      split_ifs at h ⊢
      · exact h
      · cases h

theorem readEscape_append {e : Char} {n : Nat} (h : readEscape care cs = .ok (e, n))
    (tail : List Char) :
    n ≤ cs.length ∧ readEscape care (cs ++ tail) = .ok (e, n) := by
  cases cs with
  | nil => cases h
  | cons c cs =>
    rw [readEscape] at h
    rw [List.cons_append, readEscape]
    cases hx : escaped? c with
    | some x =>
      rw [hx] at h
      cases h
      exact ⟨by simp, rfl⟩
    | none =>
      rw [hx] at h
      dsimp only at h ⊢
      split_ifs at h ⊢ with hu
      · cases h
      · obtain ⟨m, hq, h⟩ := (bind_eq_ok_iff _ _ _).mp h
        obtain ⟨hl, hq'⟩ := readQuad_append hq tail
        split_ifs at h with hm hlow
        · cases h
          refine ⟨by simpa using hl, (bind_eq_ok_iff _ _ _).mpr ⟨m, hq', ?_⟩⟩
          rw [if_pos hm]
          rfl
        · cases h
        · obtain ⟨x, hx, h⟩ := (bind_eq_ok_iff _ _ _).mp h
          cases h
          obtain ⟨hl', hx'⟩ := readSecondHalf_append hx tail
          rw [List.length_drop] at hl'
          refine ⟨by rw [List.length_cons]; omega, (bind_eq_ok_iff _ _ _).mpr ⟨m, hq', ?_⟩⟩
          rw [if_neg hm, if_neg hlow, List.drop_append_of_le_length hl, hx']
          rfl

theorem readString_append {s : List Char} (h : readString care cs = .ok (s, rest)) :
    readString care (cs ++ tail) = .ok (s, rest ++ tail) := by
  fun_induction readString care cs generalizing s with
  | case1 => cases h
  | case2 cs =>
    cases h
    rw [List.cons_append, readString, if_pos rfl]
  | case3 => cases h
  | case4 cs e n he hq ih =>
    obtain ⟨⟨s', rest'⟩, hs, h⟩ := (map_eq_ok_iff _ _ _).mp h
    cases h
    obtain ⟨hn, he'⟩ := readEscape_append he tail
    rw [List.cons_append, readString, if_neg hq, if_pos rfl, he']
    dsimp only
    rw [List.drop_append_of_le_length hn, ih hs]
    rfl
  | case5 => cases h
  | case6 c cs hq hb hc ih =>
    obtain ⟨⟨s', rest'⟩, hs, h⟩ := (map_eq_ok_iff _ _ _).mp h
    cases h
    rw [List.cons_append, readString, if_neg hq, if_neg hb, if_neg hc, ih hs]
    rfl

end Monorepo.Json
