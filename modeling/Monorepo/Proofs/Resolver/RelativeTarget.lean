import Monorepo.Proofs.Resolver.Canonical

/-! Relative specifiers made absolute. The answer names what the specifier names from the directory
of the importing file. The one exception is the directory that has the empty path: with a slash put
behind it, it reads as the root. -/
namespace Monorepo.Resolver
open Monorepo.Path

theorem getLast?_withSlash_iff (target out : List Char) :
    (withSlash target out).getLast? = some '/' ↔
      target.getLast? = some '/' ∨ out.getLast? = some '/' := by
  rw [withSlash]
  split_ifs with h
  · simp [h.1]
  · constructor
    · exact Or.inr
    · rintro (ht | ho)
      · by_contra ho
        exact h ⟨ht, ho⟩
      · exact ho

theorem withSlash_empty (target : List Char) (ht : target.getLast? = some '/') :
    withSlash target empty.shown = ['/'] :=
  if_pos ⟨ht, nofun⟩

/-- The empty path is the only normal one that a slash turns into another. -/
theorem normalize_withSlash (target : List Char) (p : Path) (hp : p.normalize = p)
    (h : ¬ (p = empty ∧ target.getLast? = some '/')) :
    (ofChars (withSlash target p.shown)).normalize = p.lossy ∧
      (ofChars (withSlash target p.shown)).isAbsolute = p.isAbsolute := by
  have hlossy : p.lossy.normalize = p.lossy := by rw [normalize_lossy, hp]
  by_cases he : p = empty
  · rw [withSlash, if_neg fun hw => h ⟨he, hw.1⟩]
    exact ⟨hlossy, isAbsolute_lossy p⟩
  · have hne : p.shown ≠ [] := fun hc =>
      he ((isEmpty_iff p).mp (List.isEmpty_iff.mpr (List.map_eq_nil_iff.mp hc)))
    have hcomponents := components_withSlash target hne
    exact ⟨(normalize_congr _ _ (congrArg Component.simplify hcomponents)).trans hlossy,
      (isAbsolute_withSlash target hne).trans (isAbsolute_lossy p)⟩

def placeFrom (real : Path) (target : String) : Path :=
  ((originDir real).join (.ofString target)).normalize

/-- The slash at its end is all that is left of `target`: it leads to the directory that has the
empty path. -/
def LeavesSlash (real : Path) (target : String) : Prop :=
  placeFrom real target = .empty ∧ target.toList.getLast? = some '/'

instance (real : Path) (target : String) : Decidable (LeavesSlash real target) :=
  inferInstanceAs (Decidable (_ ∧ _))

theorem resolve_relative_target {r : Resolver} {target : String} {origin real : Path}
    (hf : r.realFile origin = .ok real) (ht : Specifier.isRelative target = true) :
    r.resolve target origin false =
      .ok (String.ofList (withSlash target.toList (placeFrom real target).shown)) := by
  rw [resolve_of_destination hf (r.destination?_of_isRelative target real ht), write,
    spell_absolute_eq]
  rfl

theorem isAbsolute_placeFrom (real : Path) (target : String)
    (ht : Specifier.isRelative target = true) :
    (placeFrom real target).isAbsolute = (originDir real).isAbsolute := by
  rw [placeFrom, isAbsolute_normalize,
    isAbsolute_join_of_relative _ _ (Specifier.isAbsolute_of_isRelative target ht)]

/-- A relative specifier is made absolute as it is read from the directory of the file, and spelled
as what is shown of the place that it leads to there. It is absolute just if that directory is,
unless nothing but its slash is left of it. Then it becomes the root, although the directory is
relative. -/
theorem relative_target_iff (r : Resolver) (target : String) (origin real : Path)
    (hf : r.realFile origin = .ok real) (ht : Specifier.isRelative target = true) :
    ∃ answer, r.resolve target origin false = .ok answer ∧
      ((Path.ofString answer).normalize = (placeFrom real target).lossy ↔
        ¬ LeavesSlash real target) ∧
      ((Path.ofString answer).isAbsolute = (originDir real).isAbsolute ↔
        ¬ LeavesSlash real target) ∧
      (answer.toList.getLast? = some '/' ↔
        target.toList.getLast? = some '/' ∨ placeFrom real target = ⟨[slash]⟩) ∧
      (LeavesSlash real target → answer = "/" ∧ (originDir real).isAbsolute = false) := by
  refine ⟨_, resolve_relative_target hf ht, ?_⟩
  rw [ofString_ofList, String.toList_ofList, ← isAbsolute_placeFrom real target ht]
  have hslash : _ ↔ _ ∨ placeFrom real target = _ :=
    (getLast?_withSlash_iff target.toList (placeFrom real target).shown).trans
      (or_congr_right ((getLast?_shown_iff _).trans (getLast?_normalize_iff _)))
  by_cases h : LeavesSlash real target
  · have hplace := h.1
    rw [hplace] at hslash ⊢
    rw [withSlash_empty target.toList h.2] at hslash ⊢
    exact ⟨iff_of_false (by decide) (not_not.mpr h), iff_of_false (by decide) (not_not.mpr h),
      hslash, fun _ => ⟨rfl, rfl⟩⟩
  · obtain ⟨hn, ha⟩ := normalize_withSlash target.toList (placeFrom real target)
      (normalize_normalize _) h
    exact ⟨iff_of_true hn h, iff_of_true ha h, hslash, fun hl => absurd hl h⟩

theorem relative_target_iff_unlinked :
    unlinked.realFile (.ofString "a/../src/f.js") = .ok (.ofString "src/f.js") ∧
    Specifier.isRelative "../lib/./x//" = true ∧
    unlinked.resolve "../lib/./x//" (.ofString "a/../src/f.js") false = .ok "lib/x/" ∧
    (Path.ofString "lib/x/").normalize = placeFrom (.ofString "src/f.js") "../lib/./x//" ∧
    (Path.ofString "lib/x/").isAbsolute = false := by
  have hf : unlinked.realFile (.ofString "a/../src/f.js") = .ok (.ofString "src/f.js") := by decide
  have ht : Specifier.isRelative "../lib/./x//" = true := by decide
  have hn : ¬ LeavesSlash (.ofString "src/f.js") "../lib/./x//" := by decide
  have hanswer :
      unlinked.resolve "../lib/./x//" (.ofString "a/../src/f.js") false = .ok "lib/x/" := by
    decide
  obtain ⟨answer, h, hplace, habs, -⟩ := relative_target_iff unlinked _ _ _ hf ht
  obtain rfl : answer = "lib/x/" := Except.ok.inj (h.symm.trans hanswer)
  exact ⟨hf, ht, hanswer, hplace.mpr hn, (habs.mpr hn).trans (by decide)⟩

/-- In a file that is named without a directory, the directory of the file becomes the root of the
disk. -/
theorem own_directory_becomes_root :
    unlinked.realFile (.ofString "f.js") = .ok (.ofString "f.js") ∧
    Specifier.isRelative "./" = true ∧ (originDir (.ofString "f.js")).isAbsolute = false ∧
    placeFrom (.ofString "f.js") "./" = .empty ∧
    unlinked.resolve "./" (.ofString "f.js") false = .ok "/" ∧
    (Path.ofString "/").normalize ≠ .empty ∧ (Path.ofString "/").isAbsolute = true := by
  decide

end Monorepo.Resolver
