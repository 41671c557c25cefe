import Monorepo.Proofs.FileSystem.Children
import Monorepo.Proofs.FileSystem.Course
import Monorepo.Proofs.Path.Component

/-! Paths that lead into a directory. All on the way to it are directories too, so it makes no
difference how often a slash or a dot is repeated there: only the steps of the path decide. -/
namespace Monorepo.FileSystem
open Monorepo.Path Component

variable {fs : FileSystem} {a : Stage} {k k' k'' : Nat} {l l' m : Location} {s : Segment}
  {ss ts : List Segment} {p q : Path}

theorem Passes.split (h : Passes fs (.walking k l (ss ++ ts)) (.walking k'' m [])) :
    ∃ k' l', Passes fs (.walking k l ss) (.walking k' l' []) ∧
      Passes fs (.walking k' l' ts) (.walking k'' m []) := by
  generalize ha : Stage.walking k l (ss ++ ts) = a at h
  induction h using Relation.ReflTransGen.head_induction_on generalizing k l ss with
  | refl =>
    obtain ⟨rfl, rfl, hnil⟩ := Stage.walking.inj ha
    obtain ⟨rfl, rfl⟩ := List.append_eq_nil_iff.mp hnil
    exact ⟨k, l, .refl, .refl⟩
  | head hstep hrest ih =>
    subst ha
    cases ss with
    | nil => exact ⟨k, l, .refl, .head hstep hrest⟩
    | cons s ss =>
      cases hstep with
      | blank hs hd =>
        obtain ⟨k', l', h₁, h₂⟩ := ih rfl
        exact ⟨k', l', .head (.blank hs hd) h₁, h₂⟩
      | up hd =>
        obtain ⟨k', l', h₁, h₂⟩ := ih rfl
        exact ⟨k', l', .head (.up hd) h₁, h₂⟩
      | down h hs he hn =>
        obtain ⟨k', l', h₁, h₂⟩ := ih rfl
        exact ⟨k', l', .head (.down h hs he hn) h₁, h₂⟩
      | link h hs he =>
        obtain ⟨k', l', h₁, h₂⟩ := ih (congrArg _ (List.append_assoc ..))
        exact ⟨k', l', .head (.link h hs he) h₁, h₂⟩

def Enters (fs : FileSystem) (k : Nat) (l : Location) (ss : List Segment) (k' : Nat)
    (m : Location) : Prop :=
  Passes fs (.walking k l ss) (.walking k' m []) ∧ fs.isDirectoryAt m = true

/-- A way into a directory begins in one. -/
theorem Enters.isDirectoryAt (h : fs.Enters k l ss k' m) : fs.isDirectoryAt l = true := by
  obtain ⟨h, hm⟩ := h
  obtain he | ⟨b, hstep, -⟩ := h.cases_head
  · cases he
    exact hm
  · cases hstep with
    | blank _ hd => exact hd
    | up hd => exact hd
    | down hl => exact hl.isDirectory
    | link hl => exact hl.isDirectory

/-- It finds something of the first name on it. -/
theorem Enters.holds (h : fs.Enters k l (s :: ss) k' m) (hs : IsName s) : fs.Holds (l ++ [s]) := by
  obtain he | ⟨b, hstep, -⟩ := h.1.cases_head
  · cases he
  · cases hstep with
    | blank hb => exact absurd hb (not_isBlank_of_isName hs)
    | up => exact absurd rfl hs.2.2.1
    | down _ _ he => exact ⟨_, he⟩
    | link _ _ he => exact ⟨_, he⟩

end Monorepo.FileSystem
