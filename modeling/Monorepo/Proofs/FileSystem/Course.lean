import Mathlib.Logic.Relation
import Mathlib.Data.List.Basic
import Monorepo.FileSystem.Query
import Monorepo.Proofs.FileSystem.Walk

/-! The course of a walk, one segment after the other. A walk that follows every link comes out just
as its steps end, so that each outcome, faults included, is read off the stage at which the steps
stop. -/
namespace Monorepo.FileSystem
open Monorepo.Path

/-- How far one has come on a path, with the segments ahead. First the removed directories are left
in which one still stands. After that `links` more links may be followed. -/
inductive Stage where
  | leaving (lost : Nat) (here : Location) (ahead : List Segment)
  | walking (links : Nat) (here : Location) (ahead : List Segment)

namespace Stage

def here : Stage → Location
  | leaving _ l _ => l
  | walking _ l _ => l

def ahead : Stage → List Segment
  | leaving _ _ ss => ss
  | walking _ _ ss => ss

def extend (ts : List Segment) : Stage → Stage
  | leaving n l ss => leaving n l (ss ++ ts)
  | walking k l ss => walking k l (ss ++ ts)

def outcome (fs : FileSystem) (how : Manner) : Stage → Except Fault Place
  | leaving n l ss => fs.leave how n l ss
  | walking k l ss => fs.walk how k l ss

/-- A link that is followed leaves fewer of them, and all else leaves fewer segments. -/
def height : Stage → Nat × Nat
  | leaving _ _ ss => (linkLimit + 1, ss.length)
  | walking k _ ss => (k, ss.length)

end Stage

inductive Step (fs : FileSystem) : Stage → Stage → Prop
  | out (l : Location) (ss : List Segment) : Step fs (.leaving 0 l ss) (.walking linkLimit l ss)
  | remain {n : Nat} {l : Location} {s : Segment} {rest : List Segment} (hs : isBlank s = true) :
    Step fs (.leaving (n + 1) l (s :: rest)) (.leaving (n + 1) l rest)
  | leave (n : Nat) (l : Location) (rest : List Segment) :
    Step fs (.leaving (n + 1) l ([dot, dot] :: rest)) (.leaving n l.dropLast rest)
  | blank {k : Nat} {l : Location} {s : Segment} {rest : List Segment} (hs : isBlank s = true)
    (hd : fs.isDirectoryAt l = true) : Step fs (.walking k l (s :: rest)) (.walking k l rest)
  | up {k : Nat} {l : Location} {rest : List Segment} (hd : fs.isDirectoryAt l = true) :
    Step fs (.walking k l ([dot, dot] :: rest)) (.walking k l.dropLast rest)
  | down {k : Nat} {l : Location} {s : Segment} {rest : List Segment} {e : Entry}
    (h : fs.LooksUp l s) (hs : Utf8.width s ≤ nameLimit) (he : fs.entry? (l ++ [s]) = some e)
    (hn : ∀ t, e ≠ .link t) : Step fs (.walking k l (s :: rest)) (.walking k (l ++ [s]) rest)
  | link {k : Nat} {l : Location} {s : Segment} {rest : List Segment} {t : Path}
    (h : fs.LooksUp l s) (hs : Utf8.width s ≤ nameLimit)
    (he : fs.entry? (l ++ [s]) = some (.link t)) :
    Step fs (.walking (k + 1) l (s :: rest))
      (.walking k (if t.isAbsolute then [] else l) (segments t.chars ++ rest))

inductive Stops (fs : FileSystem) : Stage → Except Fault Place → Prop
  | gone (n : Nat) (l : Location) : Stops fs (.leaving (n + 1) l []) (.ok (.gone ⟨l, n + 1⟩))
  | lost {n : Nat} {l : Location} {s : Segment} {rest : List Segment} (hb : isBlank s = false)
    (hu : s ≠ [dot, dot]) : Stops fs (.leaving (n + 1) l (s :: rest)) (.error .notFound)
  | arrived (k : Nat) (l : Location) : Stops fs (.walking k l []) (.ok (.taken l))
  | noDirectory {k : Nat} {l : Location} {s : Segment} {rest : List Segment}
    (hd : fs.isDirectoryAt l = false) :
    Stops fs (.walking k l (s :: rest)) (.error .notADirectory)
  | tooLong {k : Nat} {l : Location} {s : Segment} {rest : List Segment} (h : fs.LooksUp l s)
    (hs : nameLimit < Utf8.width s) : Stops fs (.walking k l (s :: rest)) (.error .nameTooLong)
  | vacant {k : Nat} {l : Location} {s : Segment} (h : fs.LooksUp l s)
    (hs : Utf8.width s ≤ nameLimit) (he : fs.entry? (l ++ [s]) = none) :
    Stops fs (.walking k l [s]) (.ok (.free (l ++ [s])))
  | missing {k : Nat} {l : Location} {s : Segment} {rest : List Segment} (h : fs.LooksUp l s)
    (hs : Utf8.width s ≤ nameLimit) (he : fs.entry? (l ++ [s]) = none) (hr : rest ≠ []) :
    Stops fs (.walking k l (s :: rest)) (.error .notFound)
  | exhausted {l : Location} {s : Segment} {rest : List Segment} {t : Path} (h : fs.LooksUp l s)
    (hs : Utf8.width s ≤ nameLimit) (he : fs.entry? (l ++ [s]) = some (.link t)) :
    Stops fs (.walking 0 l (s :: rest)) (.error .tooManyLinks)

abbrev Passes (fs : FileSystem) : Stage → Stage → Prop := Relation.ReflTransGen (Step fs)

variable {fs : FileSystem} {a b : Stage} {o : Except Fault Place} {k : Nat} {l : Location}
  {s : Segment} {rest ts : List Segment} {how : Manner}

/-- Every stage leads on or stops. -/
theorem step_or_stops (fs : FileSystem) (a : Stage) :
    (∃ b, Step fs a b) ∨ ∃ o, Stops fs a o := by
  cases a with
  | leaving n l ss =>
    cases n with
    | zero => exact Or.inl ⟨_, .out l ss⟩
    | succ n =>
      cases ss with
      | nil => exact Or.inr ⟨_, .gone n l⟩
      | cons s rest =>
        by_cases hb : isBlank s = true
        · exact Or.inl ⟨_, .remain hb⟩
        · by_cases hu : s = [dot, dot]
          · subst hu
            exact Or.inl ⟨_, .leave n l rest⟩
          · exact Or.inr ⟨_, .lost (by simpa using hb) hu⟩
  | walking k l ss =>
    cases ss with
    | nil => exact Or.inr ⟨_, .arrived k l⟩
    | cons s rest =>
      by_cases hd : fs.isDirectoryAt l = true
      · by_cases hb : isBlank s = true
        · exact Or.inl ⟨_, .blank hb hd⟩
        · by_cases hu : s = [dot, dot]
          · subst hu
            exact Or.inl ⟨_, .up hd⟩
          · have h : fs.LooksUp l s := ⟨by simpa using hb, hu, hd⟩
            by_cases hs : nameLimit < Utf8.width s
            · exact Or.inr ⟨_, .tooLong h hs⟩
            · have hs := Nat.not_lt.mp hs
              cases he : fs.entry? (l ++ [s]) with
              | none =>
                by_cases hr : rest = []
                · subst hr
                  exact Or.inr ⟨_, .vacant h hs he⟩
                · exact Or.inr ⟨_, .missing h hs he hr⟩
              | some e =>
                cases e with
                | directory => exact Or.inl ⟨_, .down h hs he (by simp)⟩
                | file bytes => exact Or.inl ⟨_, .down h hs he (by simp)⟩
                | link t =>
                  cases k with
                  | zero => exact Or.inr ⟨_, .exhausted h hs he⟩
                  | succ k => exact Or.inl ⟨_, .link h hs he⟩
      · exact Or.inr ⟨_, .noDirectory (by simpa using hd)⟩

theorem Step.height_lt (h : Step fs a b) :
    Prod.Lex (· < ·) (· < ·) b.height a.height := by
  cases h with
  | out l ss => exact .left _ _ (Nat.lt_succ_self _)
  | remain hs => exact .right _ (Nat.lt_succ_self _)
  | leave n l rest => exact .right _ (Nat.lt_succ_self _)
  | blank hs hd => exact .right _ (Nat.lt_succ_self _)
  | up hd => exact .right _ (Nat.lt_succ_self _)
  | down h hs he hn => exact .right _ (Nat.lt_succ_self _)
  | link h hs he => exact .left _ _ (Nat.lt_succ_self _)

theorem Step.extend (h : Step fs a b) (ts : List Segment) :
    Step fs (a.extend ts) (b.extend ts) := by
  cases h with
  | out l ss => exact .out l (ss ++ ts)
  | remain hs => exact .remain hs
  | leave n l rest => exact .leave n l (rest ++ ts)
  | blank hs hd => exact .blank hs hd
  | up hd => exact .up hd
  | down h hs he hn => exact .down h hs he hn
  | link h hs he =>
    simp only [Stage.extend, List.append_assoc]
    exact .link h hs he

theorem Passes.extend (h : Passes fs a b) (ts : List Segment) :
    Passes fs (a.extend ts) (b.extend ts) :=
  h.lift (Stage.extend ts) fun _ _ hstep => hstep.extend ts

/-- Every way comes to an end. -/
theorem exists_stops (fs : FileSystem) (a : Stage) : ∃ b o, Passes fs a b ∧ Stops fs b o := by
  obtain ⟨b, h⟩ | ⟨o, h⟩ := step_or_stops fs a
  · obtain ⟨c, o, hc, ho⟩ := exists_stops fs b
    exact ⟨c, o, .head h hc, ho⟩
  · exact ⟨a, o, .refl, h⟩
termination_by a.height
decreasing_by exact h.height_lt

/-- There is something at `l`, and a directory at every place above it. -/
def Grounded (fs : FileSystem) (l : Location) : Prop :=
  fs.Holds l ∧ ∀ m, m <+: l → m ≠ l → fs.isDirectoryAt m = true

theorem grounded_nil : fs.Grounded [] :=
  ⟨⟨_, rfl⟩, fun _ hm hne => absurd (List.prefix_nil.mp hm) hne⟩

theorem isDirectoryAt_eq_true_iff : fs.isDirectoryAt l = true ↔ fs.entry? l = some .directory := by
  rw [isDirectoryAt, beq_iff_eq]

theorem Grounded.dropLast (h : fs.Grounded l) : fs.Grounded l.dropLast := by
  by_cases hl : l = []
  · subst hl
    exact h
  · have hlt : l.dropLast.length < l.length := by
      rw [List.length_dropLast]
      exact Nat.sub_lt (List.length_pos_of_ne_nil hl) Nat.one_pos
    have hshort (m : Location) (hm : m <+: l.dropLast) : m ≠ l :=
      fun he => absurd hm.length_le (Nat.not_le.mpr (he ▸ hlt))
    have habove (m : Location) (hm : m <+: l.dropLast) : fs.isDirectoryAt m = true :=
      h.2 m (hm.trans (List.dropLast_prefix l)) (hshort m hm)
    exact ⟨⟨_, isDirectoryAt_eq_true_iff.mp (habove _ List.prefix_rfl)⟩, fun m hm _ => habove m hm⟩

theorem Grounded.down {s : Segment} (h : fs.Grounded l) (hd : fs.isDirectoryAt l = true)
    (he : fs.Holds (l ++ [s])) : fs.Grounded (l ++ [s]) := by
  refine ⟨he, fun m hm hne => ?_⟩
  have hm : m <+: l := (List.prefix_concat_iff.mp hm).resolve_left hne
  by_cases heq : m = l
  · rw [heq, hd]
  · exact h.2 m hm heq

/-- Steps stay on the disk. -/
theorem Step.grounded (h : Step fs a b) (ha : fs.Grounded a.here) : fs.Grounded b.here := by
  cases h with
  | out l ss => exact ha
  | remain hs => exact ha
  | leave n l rest => exact Grounded.dropLast ha
  | blank hs hd => exact ha
  | up hd => exact Grounded.dropLast ha
  | down h hs he hn => exact Grounded.down ha h.isDirectory ⟨_, he⟩
  | @link k l s rest t h hs he =>
    change fs.Grounded (if t.isAbsolute then [] else l)
    split_ifs
    · exact grounded_nil
    · exact ha

theorem Passes.grounded (h : Passes fs a b) (ha : fs.Grounded a.here) : fs.Grounded b.here := by
  induction h with
  | refl => exact ha
  | tail _ hstep ih => exact hstep.grounded ih

theorem Passes.walking (h : Passes fs (.walking k l ts) b) :
    ∃ k' l' ts', b = .walking k' l' ts' := by
  induction h with
  | refl => exact ⟨k, l, ts, rfl⟩
  | tail _ hstep ih =>
    obtain ⟨k', l', ts', rfl⟩ := ih
    cases hstep <;> exact ⟨_, _, _, rfl⟩

/-- Only what a name stands for decides how a walk goes on, unless it measures its way. -/
theorem LooksUp.walk_or (h : fs.LooksUp l s) (hs : Utf8.width s ≤ nameLimit) (measured : Bool) :
    fs.walk ⟨true, measured⟩ k l (s :: rest) =
      (match fs.entry? (l ++ [s]) with
        | none => if rest = [] then .ok (.free (l ++ [s])) else .error .notFound
        | some (.link t) => match k with
          | 0 => .error .tooManyLinks
          | k + 1 => fs.walk ⟨true, measured⟩ k (if t.isAbsolute then [] else l)
              (segments t.chars ++ rest)
        | some _ => fs.walk ⟨true, measured⟩ k (l ++ [s]) rest) ∨
      measured = true ∧ fs.walk ⟨true, measured⟩ k l (s :: rest) = .error .nameTooLong := by
  have hend : ¬ (rest = [] ∧ ¬ true = true) := fun h => h.2 rfl
  rw [h.walk_eq, if_neg (Nat.not_lt.mpr hs)]
  by_cases hm : measured = true ∧ pathLimit ≤ Utf8.width (Location.path (l ++ [s])).chars
  · exact Or.inr ⟨hm.1, if_pos hm⟩
  · left
    rw [if_neg hm]
    cases fs.entry? (l ++ [s]) with
    | none => rfl
    | some e =>
      cases e with
      | directory => rfl
      | file bytes => rfl
      | link t => exact if_neg hend

theorem walk_noDirectory (how : Manner) (hd : fs.isDirectoryAt l = false) :
    fs.walk how k l (s :: rest) = .error .notADirectory ∨
      how.measured = true ∧ fs.walk how k l (s :: rest) = .error .nameTooLong := by
  rw [walk.eq_def]
  simp only [hd, Bool.false_eq_true, not_false_eq_true, if_true, if_false]
  split_ifs with _ _ hm
  · exact Or.inl rfl
  · exact Or.inl rfl
  · exact Or.inr ⟨hm.1, rfl⟩
  · exact Or.inl rfl

/-- A walk goes on as its first step does, unless it measures its way and the place is too long. -/
theorem Step.outcome (h : Step fs a b) (measured : Bool) :
    a.outcome fs ⟨true, measured⟩ = b.outcome fs ⟨true, measured⟩ ∨
      measured = true ∧ a.outcome fs ⟨true, measured⟩ = .error .nameTooLong := by
  cases h with
  | out l ss =>
    left
    simp only [Stage.outcome]
    rw [FileSystem.leave]
  | remain hs =>
    left
    simp only [Stage.outcome]
    rw [FileSystem.leave, if_pos hs]
  | leave n l rest =>
    left
    simp only [Stage.outcome]
    rw [FileSystem.leave, if_neg (by decide), if_pos rfl]
  | blank hs hd => exact Or.inl (walk_blank hs hd)
  | up hd => exact Or.inl (walk_up hd)
  | @down k l s rest e h hs he hn =>
    refine (h.walk_or hs measured).imp_left fun hw => hw.trans ?_
    rw [he]
    cases e with
    | directory => rfl
    | file bytes => rfl
    | link t => exact absurd rfl (hn t)
  | link h hs he =>
    refine (h.walk_or hs measured).imp_left fun hw => hw.trans ?_
    rw [he]
    rfl

theorem Stops.outcome (h : Stops fs a o) (measured : Bool) :
    a.outcome fs ⟨true, measured⟩ = o ∨
      measured = true ∧ a.outcome fs ⟨true, measured⟩ = .error .nameTooLong := by
  cases h with
  | gone n l =>
    left
    simp only [Stage.outcome]
    rw [leave]
  | lost hb hu =>
    left
    simp only [Stage.outcome]
    rw [leave, if_neg (by simp [hb]), if_neg hu]
  | arrived k l =>
    left
    simp only [Stage.outcome]
    rw [walk]
  | noDirectory hd => exact walk_noDirectory _ hd
  | tooLong h hs =>
    left
    simp only [Stage.outcome]
    rw [h.walk_eq, if_pos hs, ite_self]
  | vacant h hs he =>
    refine (h.walk_or hs measured).imp_left fun hw => hw.trans ?_
    rw [he]
    rfl
  | missing h hs he hr =>
    refine (h.walk_or hs measured).imp_left fun hw => hw.trans ?_
    rw [he]
    exact if_neg hr
  | exhausted h hs he =>
    refine (h.walk_or hs measured).imp_left fun hw => hw.trans ?_
    rw [he]

/-- A walk leads to where its steps end, unless it measures its way and a place on it is too
long. -/
theorem Passes.outcome (h : Passes fs a b) (hb : Stops fs b o) (measured : Bool) :
    a.outcome fs ⟨true, measured⟩ = o ∨
      measured = true ∧ a.outcome fs ⟨true, measured⟩ = .error .nameTooLong := by
  induction h using Relation.ReflTransGen.head_induction_on with
  | refl => exact hb.outcome measured
  | head hstep _ ih =>
    obtain he | hlong := hstep.outcome measured
    · rwa [he]
    · exact Or.inr hlong

/-- What a walk leads to is what its steps lead to. -/
theorem outcome_eq_iff :
    a.outcome fs ⟨true, false⟩ = o ↔ ∃ b, Passes fs a b ∧ Stops fs b o := by
  constructor
  · rintro rfl
    obtain ⟨b, o, hab, hb⟩ := exists_stops fs a
    obtain he | ⟨hm, -⟩ := hab.outcome hb false
    · exact ⟨b, hab, he ▸ hb⟩
    · cases hm
  · rintro ⟨b, hab, hb⟩
    obtain he | ⟨hm, -⟩ := hab.outcome hb false
    · exact he
    · cases hm

variable {p : Path} {f : Fault}

def start (fs : FileSystem) (p : Path) : Stage :=
  if p.isAbsolute then .walking linkLimit [] (segments p.chars)
  else .leaving fs.standpoint.lost fs.standpoint.location (segments p.chars)

/-- The way along `p` is not even begun: nothing can be asked about a path with a zero character, or
one that is too long. -/
def IsRefused (p : Path) : Prop := .char '\x00' ∈ p.chars ∨ pathLimit ≤ Utf8.width p.chars

instance (p : Path) : Decidable (IsRefused p) := inferInstanceAs (Decidable (_ ∨ _))

theorem follow_of_zeroCharacter (how : Manner) (h : .char '\x00' ∈ p.chars) :
    fs.follow how p = .error .nulInPath := by
  rw [follow, if_pos h]

theorem follow_of_longPath {toEnd : Bool} (hne : p.isEmpty = false) (h : .char '\x00' ∉ p.chars)
    (hs : pathLimit ≤ Utf8.width p.chars) : fs.follow ⟨toEnd, false⟩ p = .error .nameTooLong := by
  rw [follow, if_neg h, if_neg (by simp [hne]), if_pos ⟨by simp, hs⟩]

theorem follow_eq_outcome {toEnd : Bool} (hr : ¬ IsRefused p) (hne : p.isEmpty = false) :
    fs.follow ⟨toEnd, false⟩ p = (fs.start p).outcome fs ⟨toEnd, false⟩ := by
  obtain ⟨hnul, hsize⟩ := not_or.mp hr
  rw [follow, if_neg hnul, if_neg (by simp [hne]), if_neg (by simp [hsize]), start]
  split_ifs with ha
  · rfl
  · simp at *
  · rfl

end Monorepo.FileSystem
