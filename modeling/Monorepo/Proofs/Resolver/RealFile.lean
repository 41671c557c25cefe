import Mathlib
import Monorepo.Proofs.FileSystem.RealPath
import Monorepo.Proofs.Resolver.Destination

/-! Origins that are the same file. An origin is brought to its normal form before the disk is asked
for the file, so two spellings of one file are told apart only if a `..` of theirs undoes a link. -/
namespace Monorepo.Resolver
open Monorepo.Path Component FileSystem

variable {r : Resolver} {fs : FileSystem} {origin real : Path}

/-- The real path of an origin that undoes no link is the file behind its links. -/
theorem realFile_of_realPath (hlinks : r.settings.resolveLinks = true)
    (hprobe : r.probe = .ofFileSystem fs) (ha : origin.isAbsolute = true)
    (h : fs.realPath origin = .ok (some real)) (hu : fs.UndoesNoLink origin) :
    r.realFile origin = .ok real := by
  have hnormal : r.probe.realPath origin.normalize = .ok (some real) := by
    rw [hprobe]
    exact realPath_normalize ha h hu
  rw [realFile_eq, if_pos hlinks, hnormal]
  rfl

/-- Two spellings of one file have the same answers, whatever links they run through, if no `..` of
theirs undoes a link. -/
theorem same_file_same_answer {o₁ o₂ : Path} (hlinks : r.settings.resolveLinks = true)
    (hprobe : r.probe = .ofFileSystem fs) (h₁ : o₁.isAbsolute = true) (h₂ : o₂.isAbsolute = true)
    (hreal₁ : fs.realPath o₁ = .ok (some real)) (hreal₂ : fs.realPath o₂ = .ok (some real))
    (hu₁ : fs.UndoesNoLink o₁) (hu₂ : fs.UndoesNoLink o₂) (target : String) (relative : Bool) :
    r.resolve target o₁ relative = r.resolve target o₂ relative := by
  have hf₁ := realFile_of_realPath hlinks hprobe h₁ hreal₁ hu₁
  have hf₂ := realFile_of_realPath hlinks hprobe h₂ hreal₂ hu₂
  exact resolve_congr (hf₁.trans hf₂.symm) fun _ _ => rfl

def linkedTwice : FileSystem where
  entries := [(.ofNames ["a"], .directory), (.ofNames ["a", "b"], .directory),
    (.ofNames ["a", "f.js"], .file []), (.ofNames ["k"], .link (.ofString "/a")),
    (.ofNames ["l"], .link (.ofString "/a/b"))]
  standpoint := { location := [] }

def linkedTwiceResolver : Resolver where
  settings := {}
  packages := [⟨some "a", .ofString "/a", "src", none, "src", "~"⟩]
  probe := .ofFileSystem linkedTwice

theorem same_file_same_answer_linkedTwice :
    linkedTwice.realPath (.ofString "/k/b/../f.js") = .ok (some (.ofString "/a/f.js")) ∧
    linkedTwice.realPath (.ofString "/a/f.js") = .ok (some (.ofString "/a/f.js")) ∧
    linkedTwice.UndoesNoLink (.ofString "/k/b/../f.js") ∧
    linkedTwice.UndoesNoLink (.ofString "/a/f.js") ∧
    linkedTwiceResolver.resolve "~/x" (.ofString "/k/b/../f.js") true =
      linkedTwiceResolver.resolve "~/x" (.ofString "/a/f.js") true := by
  have hreal₁ : linkedTwice.realPath (.ofString "/k/b/../f.js") =
      .ok (some (.ofString "/a/f.js")) := by cbv
  have hreal₂ : linkedTwice.realPath (.ofString "/a/f.js") = .ok (some (.ofString "/a/f.js")) := by
    cbv
  have hu₁ : linkedTwice.UndoesNoLink (.ofString "/k/b/../f.js") := by
    intro as bs h
    have hc : (Path.ofString "/k/b/../f.js").components =
        [root, name (Utf8.ofString "k"), name (Utf8.ofString "b")] ++
          parent :: [name (Utf8.ofString "f.js")] := by decide
    rw [hc, List.append_cons_inj_of_notMem (by decide) (by decide)] at h
    have hb : linkedTwice.follow ⟨false, true⟩ (.ofString "/k/b") =
        .ok (.taken (Location.ofNames ["a", "b"])) := by cbv
    obtain ⟨rfl, -, -⟩ := h
    exact not_isLink hb fun t ht => by cases ht
  have hu₂ : linkedTwice.UndoesNoLink (.ofString "/a/f.js") := by
    intro as bs h
    have hm : parent ∈ (Path.ofString "/a/f.js").components := by simp [h]
    exact absurd hm (by decide)
  exact ⟨hreal₁, hreal₂, hu₁, hu₂,
    same_file_same_answer rfl rfl rfl rfl hreal₁ hreal₂ hu₁ hu₂ "~/x" true⟩

/-- From the link to `b` a `..` leads to the package, but its normal form does not, and so the two
spellings of one file have different answers. -/
theorem up_from_link :
    linkedTwiceResolver.probe = .ofFileSystem linkedTwice ∧
    linkedTwice.realPath (.ofString "/l/../f.js") = .ok (some (.ofString "/a/f.js")) ∧
    linkedTwice.realPath (.ofString "/a/f.js") = .ok (some (.ofString "/a/f.js")) ∧
    linkedTwiceResolver.resolve "~/x" (.ofString "/l/../f.js") true = .ok "~/x" ∧
    linkedTwiceResolver.resolve "~/x" (.ofString "/a/f.js") true = .ok "./src/x" := by
  have hfile : linkedTwiceResolver.realFile (.ofString "/a/f.js") = .ok (.ofString "/a/f.js") := by
    cbv
  have hother :
      linkedTwiceResolver.realFile (.ofString "/l/../f.js") = .ok (.ofString "/f.js") := by
    cbv
  have hthere : linkedTwiceResolver.destination? "~/x" (.ofString "/a/f.js") =
      .ok (some (.ofString "/a/src/x")) := by decide
  have hnone : linkedTwiceResolver.destination? "~/x" (.ofString "/f.js") = .ok none := by decide
  refine ⟨rfl, by cbv, by cbv, resolve_of_destination hother hnone, ?_⟩
  rw [resolve_of_destination hfile hthere]
  decide

end Monorepo.Resolver
