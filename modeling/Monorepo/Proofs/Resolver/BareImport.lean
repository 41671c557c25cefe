import Monorepo.Proofs.Resolver.Record

/-! Bare imports. The name of another package stands for its entry directory, however many slashes
are put behind it, and whether or not the root of the package is there or its paths are mapped. -/
namespace Monorepo

theorem trimSlashes_eq_nil_iff (cs : List Char) : trimSlashes cs = [] ↔ ∀ c ∈ cs, c = '/' := by
  rw [trimSlashes, List.dropWhile_eq_nil_iff]
  simp

namespace Resolver
open Monorepo.Path

/-- What is asked for in place of a bare name is the root of the package. -/
theorem directCandidate_nil (p : Package) : directCandidate p [] = p.root.normalize := by
  apply normalize_congr
  rw [simplify_components_join p.root (.ofChars []) rfl]
  simp [ofChars, steps, segments, Component.ofSegment?]

/-- Where entries are resolved, the name of another package with nothing but slashes behind it
stands for the entry directory of that package, as it is shown. A slash at its end is kept, and the
root has one already. Only a disk that cannot be asked about the root of the package keeps it from
that. -/
theorem bare_import_leads_to_entry (r : Resolver) (hr : ∀ p ∈ r.packages, p.root.isAbsolute = true)
    (hentries : r.settings.resolveEntries = true) (target : String) (origin real : Path)
    (hf : r.realFile origin = .ok real) (hs : r.specifierAt target real = .module) (q : Package)
    (m : Nat) (rest : List Char) (hn : r.packageNamed? target.toList = some (q, m, rest))
    (hother : ¬ ∃ o, r.packageOf? real = some (o, m)) (hbare : ∀ c ∈ rest, c = '/') :
    (∀ e, r.probe.present q.root.normalize = .error e →
      r.resolve target origin false = .error ⟨q.root.normalize, e⟩) ∧
    ∀ isThere, r.probe.present q.root.normalize = .ok isThere →
      let entry := (q.entryDir r.settings.mode).normalize
      r.resolve target origin false =
        .ok (if target.toList.getLast? = some '/' ∧ entry ≠ ⟨[slash]⟩ then entry.text ++ "/"
          else entry.text) := by
  have hroot := hr q (mem_of_packageNamed? hn)
  have hentry (isThere : Bool) : r.packagePath? q [] isThere =
      some (q.entryDir r.settings.mode).normalize := if_pos ⟨hentries, rfl⟩
  have hdest := destination?_of_named hs hn hother
  rw [(trimSlashes_eq_nil_iff rest).mpr hbare, directCandidate_nil] at hdest
  constructor
  · intro e hprobe
    rw [hprobe] at hdest
    exact resolve_of_destination_error hf hdest
  · intro isThere hprobe entry
    rw [hprobe] at hdest
    rw [resolve_of_destination hf (hdest.trans (congrArg _ (hentry isThere))),
      write_normalize real (q.entryDir r.settings.mode) (isAbsolute_outputOr q _ _ hroot)]

def entered (entry : String) : Resolver where
  settings := { resolveLinks := false }
  packages := [⟨some "@s/b", .ofString "/r/b", "src", some "dist", entry, "~"⟩]
  probe := ⟨fun _ => .ok none, fun _ => .ok true⟩

theorem bare_import_leads_to_entry_entered :
    (∀ p ∈ (entered "./lib//x/..").packages, p.root.isAbsolute = true) ∧
    (entered "./lib//x/..").realFile (.ofString "/r/f.js") = .ok (.ofString "/r/f.js") ∧
    (entered "./lib//x/..").specifierAt "@s/b///" (.ofString "/r/f.js") = .module ∧
    (entered "./lib//x/..").packageNamed? "@s/b///".toList =
      some (⟨some "@s/b", .ofString "/r/b", "src", some "dist", "./lib//x/..", "~"⟩, 0,
        ['/', '/', '/']) ∧
    (¬ ∃ o, (entered "./lib//x/..").packageOf? (.ofString "/r/f.js") = some (o, 0)) ∧
    (entered "./lib//x/..").probe.present (.ofString "/r/b") = .ok true ∧
    (entered "./lib//x/..").resolve "@s/b///" (.ofString "/r/f.js") false = .ok "/r/b/lib/" := by
  have hr : ∀ p ∈ (entered "./lib//x/..").packages, p.root.isAbsolute = true := by decide
  have hf : (entered "./lib//x/..").realFile (.ofString "/r/f.js") = .ok (.ofString "/r/f.js") := by
    decide
  have hs : (entered "./lib//x/..").specifierAt "@s/b///" (.ofString "/r/f.js") = .module := rfl
  have hn : (entered "./lib//x/..").packageNamed? "@s/b///".toList =
      some (⟨some "@s/b", .ofString "/r/b", "src", some "dist", "./lib//x/..", "~"⟩, 0,
        ['/', '/', '/']) := by decide
  have hother : ¬ ∃ o, (entered "./lib//x/..").packageOf? (.ofString "/r/f.js") = some (o, 0) := by
    rw [show (entered "./lib//x/..").packageOf? (.ofString "/r/f.js") = none by decide]
    simp
  have hall :=
    (bare_import_leads_to_entry _ hr rfl _ _ _ hf hs _ _ _ hn hother (by simp)).2 true rfl
  exact ⟨hr, hf, hs, hn, hother, rfl, hall.trans (by decide)⟩

/-- Another spelling of the root does not stand for the entry, an entry that is the root of the disk
is not spelled with two slashes, and one that is no text is not spelled at all. -/
theorem dotted_root_not_entry :
    (entered "lib").settings.resolveEntries = true ∧
    (entered "lib").realFile (.ofString "/r/f.js") = .ok (.ofString "/r/f.js") ∧
    directCandidate ⟨some "@s/b", .ofString "/r/b", "src", some "dist", "lib", "~"⟩ ['.'] =
      (Path.ofString "/r/b").normalize ∧
    (entered "lib").specifierAt "@s/b/." (.ofString "/r/f.js") = .module ∧
    (entered "lib").packageNamed? "@s/b/.".toList =
      some (⟨some "@s/b", .ofString "/r/b", "src", some "dist", "lib", "~"⟩, 0, ['/', '.']) ∧
    (entered "lib").packageOf? (.ofString "/r/f.js") = none ∧
    (entered "lib").resolve "@s/b" (.ofString "/r/f.js") false = .ok "/r/b/lib" ∧
    (entered "lib").resolve "@s/b/." (.ofString "/r/f.js") false = .ok "/r/b" ∧
    (entered "../..").resolve "@s/b" (.ofString "/r/f.js") false = .ok "/" ∧
    (entered "../..").resolve "@s/b/" (.ofString "/r/f.js") false = .ok "/" ∧
    garbled.specifierAt "a" (.ofString "/f.js") = .module ∧
    garbled.packageOf? (.ofString "/f.js") = none ∧
    garbled.packageNamed? "a".toList =
      some (⟨some "a", garbledRoot, "src", none, "src", "~"⟩, 0, []) ∧
    garbled.resolve "a" (.ofString "/f.js") false = .ok "/r/\uFFFD/src" ∧
    Path.ofString "/r/\uFFFD/src" ≠ (garbledRoot.join (.ofString "src")).normalize := by
  exact ⟨rfl, by decide, by decide, rfl, by decide, by decide, by decide, by decide, by decide,
    by decide, rfl, by decide, by decide, by decide, by decide⟩

end Resolver
end Monorepo
