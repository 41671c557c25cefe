import Mathlib.Data.List.Basic
import Monorepo.Proofs.Path.Below
import Monorepo.Proofs.Text.Utf8
import Monorepo.Specifier

/-! Tokens and kinds of specifiers. A token ends at a slash or at the end of the text, so two tokens
of one text are comparable. -/
namespace Monorepo
open Monorepo.Path Component

theorem stripToken?_eq_some_iff (t k rest : List Char) :
    stripToken? t k = some rest ↔
      k ≠ [] ∧ t = k ++ rest ∧ (rest = [] ∨ ∃ cs, rest = '/' :: cs) := by
  rw [stripToken?]
  by_cases hk : k = []
  · simp [hk]
  · rw [if_neg hk]
    cases hp : k.isPrefixOf? t with
    | none =>
      have hn : t ≠ k ++ rest := by
        intro ht
        rw [List.isPrefixOf?_eq_some_iff_append_eq.mpr ht.symm] at hp
        cases hp
      simp [hn]
    | some u =>
      have ht : k ++ u = t := List.isPrefixOf?_eq_some_iff_append_eq.mp hp
      subst ht
      rw [List.append_cancel_left_eq]
      cases u with
      | nil =>
        constructor
        · intro h
          cases h
          exact ⟨hk, rfl, Or.inl rfl⟩
        · rintro ⟨-, rfl, -⟩
          rfl
      | cons c u =>
        constructor
        · intro h
          split at h
          · simp_all
          · cases h
            simp_all
          · cases h
        · rintro ⟨-, rfl, h | ⟨cs, h⟩⟩
          · cases h
          · cases h
            rfl

/-- `target` is `token`, or goes on behind it with a slash. The empty token is in front of
nothing. -/
def IsInFront (token target : String) : Prop :=
  token ≠ "" ∧ (target = token ∨ ∃ rest, target = token ++ "/" ++ rest)

theorem isInFront_iff (token target : String) :
    IsInFront token target ↔ (stripToken? target.toList token.toList).isSome = true := by
  rw [Option.isSome_iff_exists]
  constructor
  · rintro ⟨hne, h⟩
    have hc : token.toList ≠ [] := fun h => hne (String.toList_injective (by simpa using h))
    obtain rfl | ⟨rest, rfl⟩ := h
    · exact ⟨[], (stripToken?_eq_some_iff _ _ _).mpr ⟨hc, by simp, Or.inl rfl⟩⟩
    · exact ⟨'/' :: rest.toList,
        (stripToken?_eq_some_iff _ _ _).mpr ⟨hc, by simp, Or.inr ⟨_, rfl⟩⟩⟩
  · rintro ⟨rest, h⟩
    obtain ⟨hc, ht, hr⟩ := (stripToken?_eq_some_iff _ _ _).mp h
    refine ⟨fun h => hc (by simp [h]), ?_⟩
    obtain rfl | ⟨cs, rfl⟩ := hr
    · exact Or.inl (String.toList_injective (by simpa using ht))
    · exact Or.inr ⟨String.ofList cs, String.toList_injective (by simpa using ht)⟩

theorem stripToken?_eq_none_iff (token target : String) :
    stripToken? target.toList token.toList = none ↔ ¬ IsInFront token target := by
  rw [isInFront_iff, Bool.not_eq_true, Option.isSome_eq_false_iff, Option.isNone_iff_eq_none]

theorem IsInFront.isPrefix {token target : String} (h : IsInFront token target) :
    token.toList <+: target.toList := by
  obtain ⟨-, rfl | ⟨rest, rfl⟩⟩ := h
  · exact List.prefix_refl _
  · simp

instance (token target : String) : Decidable (IsInFront token target) :=
  decidable_of_iff _ (isInFront_iff token target).symm

/-- A token without slashes is stripped just where it is the first segment. -/
theorem isSome_stripToken?_iff (t k : List Char) (hk : k ≠ []) (hs : '/' ∉ k) :
    (stripToken? t k).isSome = true ↔
      (segments (Path.ofChars t).chars).head? = some (k.map .char) := by
  have hslash : slash ∉ k.map Utf8.Symbol.char := by simpa using hs
  rw [Option.isSome_iff_exists]
  constructor
  · rintro ⟨rest, h⟩
    obtain ⟨-, rfl, rfl | ⟨cs, rfl⟩⟩ := (stripToken?_eq_some_iff _ _ _).mp h
    · rw [List.append_nil, ofChars, segments_of_no_slash _ hslash]
      rfl
    · rw [ofChars, List.map_append, List.map_cons, head?_segments_append_slash,
        segments_of_no_slash _ hslash]
      rfl
  · intro h
    obtain ⟨rest, ht, hr⟩ := exists_eq_append_of_head?_segments _ _ h
    obtain ⟨k', rest', rfl, hk', rfl⟩ := List.map_eq_append_iff.mp ht
    obtain rfl := Utf8.map_char_injective hk'
    refine ⟨rest', (stripToken?_eq_some_iff _ _ _).mpr ⟨hk, rfl, ?_⟩⟩
    obtain hr | ⟨cs, hr⟩ := hr
    · exact Or.inl (List.map_eq_nil_iff.mp hr)
    · obtain ⟨c, cs, rfl, hc, -⟩ := List.map_eq_cons_iff.mp hr
      cases hc
      exact Or.inr ⟨cs, rfl⟩

/-- Of two tokens of one text, the shorter is a token of the longer. -/
theorem stripToken?_comparable (t j k u v : List Char) (hj : stripToken? t j = some u)
    (hk : stripToken? t k = some v) :
    (stripToken? k j).isSome = true ∨ (stripToken? j k).isSome = true := by
  have hlead (a b u v : List Char) (ha : a ≠ []) (hu : u = [] ∨ ∃ cs, u = '/' :: cs)
      (h : ∃ s, b = a ++ s ∧ u = s ++ v) : (stripToken? b a).isSome = true := by
    obtain ⟨s, rfl, rfl⟩ := h
    have hs : s = [] ∨ ∃ cs, s = '/' :: cs := by
      cases s with
      | nil => exact Or.inl rfl
      | cons c s => exact Or.inr ⟨s, by simpa using hu⟩
    rw [(stripToken?_eq_some_iff _ _ s).mpr ⟨ha, rfl, hs⟩]
    rfl
  obtain ⟨hj0, hjt, hu⟩ := (stripToken?_eq_some_iff _ _ _).mp hj
  obtain ⟨hk0, hkt, hv⟩ := (stripToken?_eq_some_iff _ _ _).mp hk
  obtain h | h := List.append_eq_append_iff.mp (hjt.symm.trans hkt)
  · exact Or.inl (hlead j k u v hj0 hu h)
  · exact Or.inr (hlead k j v u hk0 hv h)

theorem steps_trimSlashes (cs : List Char) :
    (ofChars (trimSlashes cs)).steps = (ofChars cs).steps := by
  induction cs with
  | nil => rfl
  | cons c cs ih =>
    by_cases hc : c = '/'
    · subst hc
      have ht : trimSlashes ('/' :: cs) = trimSlashes cs := by simp [trimSlashes]
      rw [ht, ih]
      exact (steps_append_slash [] (ofChars cs).chars).symm
    · have ht : trimSlashes (c :: cs) = c :: cs := by simp [trimSlashes, hc]
      rw [ht]

theorem isAbsolute_trimSlashes (cs : List Char) :
    (ofChars (trimSlashes cs)).isAbsolute = false := by
  induction cs with
  | nil => rfl
  | cons c cs ih =>
    by_cases hc : c = '/'
    · have ht : trimSlashes (c :: cs) = trimSlashes cs := by simp [trimSlashes, hc]
      rw [ht, ih]
    · have ht : trimSlashes (c :: cs) = c :: cs := by simp [trimSlashes, hc]
      rw [ht]
      simp [isAbsolute, ofChars, hc]

/-- Without its slashes, what follows a token can be joined to a directory. -/
theorem confined_trimSlashes (rest : List Char) (h : parent ∉ (ofChars rest).components) :
    (ofChars (trimSlashes rest)).Confined := by
  rw [confined_iff_steps _ (isAbsolute_trimSlashes rest), steps_trimSlashes]
  intro hm
  apply h
  rw [components_eq]
  exact List.mem_append_right _ hm

/-- What follows a token does not lead up if the target does not. -/
theorem confined_rest (target token rest : List Char) (h : stripToken? target token = some rest)
    (ht : parent ∉ (ofChars target).components) : (ofChars (trimSlashes rest)).Confined := by
  obtain ⟨-, rfl, hr⟩ := (stripToken?_eq_some_iff _ _ _).mp h
  apply confined_trimSlashes
  obtain rfl | ⟨cs, rfl⟩ := hr
  · exact List.not_mem_nil
  · intro hm
    apply ht
    have hsteps : (ofChars ('/' :: cs)).steps = (ofChars cs).steps :=
      steps_append_slash [] (ofChars cs).chars
    rw [components_of_isAbsolute _ rfl, List.mem_cons, hsteps] at hm
    have hall : (ofChars (token ++ '/' :: cs)).steps =
        (ofChars token).steps ++ (ofChars cs).steps := by
      rw [ofChars, List.map_append]
      exact steps_append_slash _ _
    rw [components_eq, hall]
    exact List.mem_append_right _ (List.mem_append_right _ (hm.resolve_left (by simp)))

namespace Specifier

/-- All that is known of a specifier once its kind is known. -/
theorem classify_spec (s : Settings) (o : Option Package) (t : String) :
    match classify s o t with
    | relative => isRelative t = true
    | aliased p rest => o = some p ∧ isRelative t = false ∧ s.resolveAliases = true ∧
        stripToken? t.toList p.aliasToken.toList = some rest
    | ownName p rest => o = some p ∧ isRelative t = false ∧ s.resolveOwnName = true ∧
        stripToken? t.toList p.aliasToken.toList = none ∧
        stripToken? t.toList (p.name.getD "").toList = some rest
    | module => isRelative t = false ∧ ∀ p, o = some p →
        (stripToken? t.toList p.aliasToken.toList ≠ none ∧ s.resolveAliases = false) ∨
        (stripToken? t.toList p.aliasToken.toList = none ∧
          (stripToken? t.toList (p.name.getD "").toList = none ∨ s.resolveOwnName = false)) := by
  by_cases hr : isRelative t = true
  · rw [show classify s o t = relative from if_pos hr]
    exact hr
  · have hf : isRelative t = false := by simpa using hr
    cases o with
    | none =>
      rw [show classify s none t = module from if_neg hr]
      exact ⟨hf, fun p h => by cases h⟩
    | some p =>
      cases ha : stripToken? t.toList p.aliasToken.toList with
      | some rest => cases hs : s.resolveAliases <;> simp [classify, ha, hs, hf]
      | none =>
        cases hn : stripToken? t.toList (p.name.getD "").toList with
        | some rest => cases hs : s.resolveOwnName <;> simp [classify, ha, hn, hs, hf]
        | none => simp [classify, ha, hn, hf]

theorem classify_of_alias (s : Settings) (p : Package) (t : String) (rest : List Char)
    (hrel : isRelative t = false) (h : stripToken? t.toList p.aliasToken.toList = some rest) :
    classify s (some p) t = if s.resolveAliases then aliased p rest else module := by
  simp [classify, hrel, h]

theorem classify_of_ownName (s : Settings) (p : Package) (t : String) (rest : List Char)
    (hrel : isRelative t = false) (ha : stripToken? t.toList p.aliasToken.toList = none)
    (h : stripToken? t.toList (p.name.getD "").toList = some rest) :
    classify s (some p) t = if s.resolveOwnName then ownName p rest else module := by
  simp [classify, hrel, ha, h]

theorem isRelative_of_classify (s : Settings) (o : Option Package) (t : String)
    (h : classify s o t = relative) : isRelative t = true := by
  have hs := classify_spec s o t
  rwa [h] at hs

theorem isRelative_iff (t : String) :
    isRelative t = true ↔
      (segments (Path.ofString t).chars).head? = some [dot] ∨
        (segments (Path.ofString t).chars).head? = some [dot, dot] := by
  rw [isRelative, Bool.or_eq_true, isSome_stripToken?_iff _ _ (by simp) (by decide),
    isSome_stripToken?_iff _ _ (by simp) (by decide)]
  rfl

theorem isRelative_head (target : String) (h : isRelative target = true) :
    ∃ cs, target.toList = '.' :: cs := by
  unfold isRelative stripToken? at h
  cases ht : target.toList with
  | nil => simp [ht] at h
  | cons c cs =>
    by_cases hc : c = '.'
    · exact ⟨cs, by rw [hc]⟩
    · simp [ht, Ne.symm hc] at h

theorem isAbsolute_of_isRelative (target : String) (h : isRelative target = true) :
    (Path.ofString target).isAbsolute = false := by
  obtain ⟨cs, hcs⟩ := isRelative_head target h
  simp [Path.ofString, Utf8.ofString, Path.isAbsolute, hcs]

end Specifier

end Monorepo
