import Mathlib
import Monorepo.Proofs.FileSystem.Course
import Monorepo.Proofs.Outcome
import Monorepo.Proofs.Path.Component

/-! What counts as missing. Whether there is something at a path, its real path and the text of a
file are asked for in three ways, and each has its own view of the faults that a path may come
to. -/
namespace Monorepo.FileSystem
open Monorepo.Path

variable {fs : FileSystem} {p : Path} {f : Fault}

/-- On the way along `p`, or along a link on it, a name is looked up that is longer than any
name. -/
def MeetsLongName (fs : FileSystem) (p : Path) : Prop :=
  ∃ k l s rest, Passes fs (fs.start p) (.walking k l (s :: rest)) ∧ fs.LooksUp l s ∧
    nameLimit < Utf8.width s

def RunsOutOfLinks (fs : FileSystem) (p : Path) : Prop :=
  ∃ l s rest t, Passes fs (fs.start p) (.walking 0 l (s :: rest)) ∧ fs.LooksUp l s ∧
    Utf8.width s ≤ nameLimit ∧ fs.entry? (l ++ [s]) = some (.link t)

/-- The way along `p` goes on from something that is not a directory. -/
def RunsThroughFile (fs : FileSystem) (p : Path) : Prop :=
  p.isEmpty = false ∧
    ∃ k l s rest, Passes fs (fs.start p) (.walking k l (s :: rest)) ∧ fs.isDirectoryAt l = false

/-- Why the disk does not say whether there is something at `p`. -/
inductive Withholds (fs : FileSystem) (p : Path) : Fault → Prop
  | zeroCharacter (h : .char '\x00' ∈ p.chars) : Withholds fs p .nulInPath
  | longPath (h : .char '\x00' ∉ p.chars) (hs : pathLimit ≤ Utf8.width p.chars) :
    Withholds fs p .nameTooLong
  | longName (h : ¬ IsRefused p) (hm : fs.MeetsLongName p) : Withholds fs p .nameTooLong
  | links (h : ¬ IsRefused p) (hm : fs.RunsOutOfLinks p) : Withholds fs p .tooManyLinks

theorem exists_withholds_iff :
    (∃ f, fs.Withholds p f) ↔ IsRefused p ∨ fs.MeetsLongName p ∨ fs.RunsOutOfLinks p := by
  constructor
  · rintro ⟨f, h⟩
    cases h with
    | zeroCharacter h => exact Or.inl (Or.inl h)
    | longPath h hs => exact Or.inl (Or.inr hs)
    | longName h hm => exact Or.inr (Or.inl hm)
    | links h hm => exact Or.inr (Or.inr hm)
  · intro h
    by_cases hr : IsRefused p
    · by_cases hnul : .char '\x00' ∈ p.chars
      · exact ⟨_, .zeroCharacter hnul⟩
      · exact ⟨_, .longPath hnul (hr.resolve_left hnul)⟩
    · obtain hm | hm := h.resolve_left hr
      · exact ⟨_, .longName hr hm⟩
      · exact ⟨_, .links hr hm⟩

theorem follow_eq_error_iff (hr : ¬ IsRefused p) (hne : p.isEmpty = false) :
    fs.follow ⟨true, false⟩ p = .error f ↔
      ∃ b, Passes fs (fs.start p) b ∧ Stops fs b (.error f) := by
  rw [follow_eq_outcome hr hne, outcome_eq_iff]

theorem follow_eq_nameTooLong_iff (hr : ¬ IsRefused p) (hne : p.isEmpty = false) :
    fs.follow ⟨true, false⟩ p = .error .nameTooLong ↔ fs.MeetsLongName p := by
  rw [follow_eq_error_iff hr hne]
  constructor
  · rintro ⟨b, hb, hs⟩
    cases hs with
    | tooLong h hlong => exact ⟨_, _, _, _, hb, h, hlong⟩
  · rintro ⟨k, l, s, rest, hb, h, hlong⟩
    exact ⟨_, hb, .tooLong h hlong⟩

theorem follow_eq_tooManyLinks_iff (hr : ¬ IsRefused p) (hne : p.isEmpty = false) :
    fs.follow ⟨true, false⟩ p = .error .tooManyLinks ↔ fs.RunsOutOfLinks p := by
  rw [follow_eq_error_iff hr hne]
  constructor
  · rintro ⟨b, hb, hs⟩
    cases hs with
    | exhausted h hshort he => exact ⟨_, _, _, _, hb, h, hshort, he⟩
  · rintro ⟨l, s, rest, t, hb, h, hshort, he⟩
    exact ⟨_, hb, .exhausted h hshort he⟩

theorem follow_eq_notADirectory_iff (hr : ¬ IsRefused p) :
    fs.follow ⟨true, false⟩ p = .error .notADirectory ↔ fs.RunsThroughFile p := by
  by_cases hne : p.isEmpty = true
  · rw [(isEmpty_iff p).mp hne]
    exact iff_of_false (by simp [follow, empty, isEmpty]) fun h => Bool.noConfusion h.1
  · have hne : p.isEmpty = false := by simpa using hne
    rw [follow_eq_error_iff hr hne]
    constructor
    · rintro ⟨b, hb, hs⟩
      cases hs with
      | noDirectory hd => exact ⟨hne, _, _, _, _, hb, hd⟩
    · rintro ⟨-, k, l, s, rest, hb, hd⟩
      exact ⟨_, hb, .noDirectory hd⟩

/-- A walk comes to no other faults. -/
theorem fault_of_follow (hr : ¬ IsRefused p) (hne : p.isEmpty = false)
    (h : fs.follow ⟨true, false⟩ p = .error f) :
    f.isAbsence = true ∨ f = .nameTooLong ∨ f = .tooManyLinks := by
  obtain ⟨b, -, hs⟩ := (follow_eq_error_iff hr hne).mp h
  cases hs with
  | lost hb hu => exact Or.inl rfl
  | noDirectory hd => exact Or.inl rfl
  | tooLong h hs => exact Or.inr (Or.inl rfl)
  | missing h hs he hr => exact Or.inl rfl
  | exhausted h hs he => exact Or.inr (Or.inr rfl)

theorem entry_eq_error {place : Place} (h : place.entry fs = .error f) : f = .notFound := by
  cases place with
  | taken l =>
    rw [Place.entry] at h
    split at h <;> cases h
    rfl
  | free l =>
    cases h
    rfl
  | gone s => cases h

theorem lookup_eq_error_iff (hf : f ≠ .notFound) :
    fs.lookup p = .error f ↔ fs.follow ⟨true, false⟩ p = .error f := by
  rw [lookup, bind_eq_error_iff]
  constructor
  · rintro (h | ⟨place, -, h⟩)
    · exact h
    · exact absurd (entry_eq_error h) hf
  · exact Or.inl

theorem present_eq_error_iff_lookup :
    fs.present p = .error f ↔ f.isAbsence = false ∧ fs.lookup p = .error f := by
  rw [present]
  cases fs.lookup p with
  | ok e => simp
  | error e =>
    dsimp only
    split_ifs with ha
    · simp only [false_iff, Except.error.injEq]
      rintro ⟨hf, rfl⟩
      exact Bool.noConfusion (ha.symm.trans hf)
    · simp only [Except.error.injEq]
      exact ⟨fun h => ⟨h ▸ Bool.eq_false_iff.mpr ha, h⟩, And.right⟩

theorem present_eq_error_iff_follow :
    fs.present p = .error f ↔ f.isAbsence = false ∧ fs.follow ⟨true, false⟩ p = .error f := by
  rw [present_eq_error_iff_lookup]
  refine and_congr_right fun hf => lookup_eq_error_iff ?_
  rintro rfl
  cases hf

theorem present_eq_false_iff :
    fs.present p = .ok false ↔
      fs.lookup p = .error .notFound ∨ fs.lookup p = .error .notADirectory := by
  rw [present]
  cases fs.lookup p with
  | ok e => simp
  | error e => cases e <;> simp [Fault.isAbsence]

/-- A disk says whether there is something at a path unless it has one of four reasons not to. -/
theorem present_eq_error_iff (hne : p.isEmpty = false) :
    fs.present p = .error f ↔ fs.Withholds p f := by
  rw [present_eq_error_iff_follow]
  by_cases hnul : .char '\x00' ∈ p.chars
  · rw [follow_of_zeroCharacter _ hnul]
    constructor
    · rintro ⟨-, h⟩
      cases h
      exact .zeroCharacter hnul
    · intro h
      cases h with
      | zeroCharacter _ => exact ⟨rfl, rfl⟩
      | longPath h _ => exact absurd hnul h
      | longName h _ => exact absurd (Or.inl hnul) h
      | links h _ => exact absurd (Or.inl hnul) h
  · by_cases hsize : pathLimit ≤ Utf8.width p.chars
    · rw [follow_of_longPath hne hnul hsize]
      constructor
      · rintro ⟨-, h⟩
        cases h
        exact .longPath hnul hsize
      · intro h
        cases h with
        | zeroCharacter h => exact absurd h hnul
        | longPath _ _ => exact ⟨rfl, rfl⟩
        | longName h _ => exact absurd (Or.inr hsize) h
        | links h _ => exact absurd (Or.inr hsize) h
    · have hr : ¬ IsRefused p := not_or.mpr ⟨hnul, hsize⟩
      constructor
      · rintro ⟨hf, h⟩
        obtain ha | rfl | rfl := fault_of_follow hr hne h
        · rw [ha] at hf
          cases hf
        · exact .longName hr ((follow_eq_nameTooLong_iff hr hne).mp h)
        · exact .links hr ((follow_eq_tooManyLinks_iff hr hne).mp h)
      · intro h
        cases h with
        | zeroCharacter h => exact absurd h hnul
        | longPath _ h => exact absurd h hsize
        | longName _ hm => exact ⟨rfl, (follow_eq_nameTooLong_iff hr hne).mpr hm⟩
        | links _ hm => exact ⟨rfl, (follow_eq_tooManyLinks_iff hr hne).mpr hm⟩

theorem not_withheld_of_present {there : Bool} (hne : p.isEmpty = false)
    (h : fs.present p = .ok there) :
    ¬ (IsRefused p ∨ fs.MeetsLongName p ∨ fs.RunsOutOfLinks p) := by
  rw [← exists_withholds_iff]
  rintro ⟨f, hf⟩
  rw [(present_eq_error_iff hne).mpr hf] at h
  cases h

/-- The directory one stands in was not removed, and it is on the disk with all above it. -/
def StandsOnDisk (fs : FileSystem) : Prop :=
  fs.standpoint.lost = 0 ∧ fs.Grounded fs.standpoint.location

theorem not_isRefused_of_present {there : Bool} (h : fs.present p = .ok there) : ¬ IsRefused p := by
  intro hr
  by_cases hne : p.isEmpty = true
  · rw [(isEmpty_iff p).mp hne] at hr
    exact absurd hr (by decide)
  · exact not_withheld_of_present (by simpa using hne) h (Or.inl hr)

/-- From a place on the disk a path is followed alike whether or not its places are measured. -/
theorem exists_follow_eq_outcome (hr : ¬ IsRefused p) (hne : p.isEmpty = false)
    (hstand : p.isAbsolute = true ∨ fs.StandsOnDisk) :
    ∃ l, fs.Grounded l ∧ ∀ measured, fs.follow ⟨true, measured⟩ p =
      (Stage.walking linkLimit l (segments p.chars)).outcome fs ⟨true, measured⟩ := by
  obtain ⟨hnul, hsize⟩ := not_or.mp hr
  have hfits (measured : Bool) :
      ¬ (¬ measured = true ∧ pathLimit ≤ Utf8.width p.chars) := fun h => hsize h.2
  by_cases ha : p.isAbsolute = true
  · refine ⟨[], grounded_nil, fun measured => ?_⟩
    rw [follow, if_neg hnul, if_neg (by simp [hne]), if_neg (hfits measured), if_pos ha]
    rfl
  · obtain ⟨hlost, hl⟩ := hstand.resolve_left ha
    refine ⟨fs.standpoint.location, hl, fun measured => ?_⟩
    rw [follow, if_neg hnul, if_neg (by simp [hne]), if_neg (hfits measured), if_neg ha,
      if_neg (fun h => h.2 hlost), hlost, leave]
    rfl

/-- Where one stands on the disk, what is there has a real path, and all else has none. -/
theorem present_eq_isSome_realPath {there : Bool} {real? : Option Path}
    (hpresent : fs.present p = .ok there) (hreal : fs.realPath p = .ok real?)
    (hstand : p.isAbsolute = true ∨ fs.StandsOnDisk) : there = real?.isSome := by
  by_cases he : p.isEmpty = true
  · rw [(isEmpty_iff p).mp he] at hpresent hreal
    cases hpresent
    cases hreal
    rfl
  · obtain ⟨l, hl, hfollow⟩ := exists_follow_eq_outcome (not_isRefused_of_present hpresent)
      (by simpa using he) hstand
    obtain ⟨b, o, hb, hstop⟩ := exists_stops fs (.walking linkLimit l (segments p.chars))
    have hground := hb.grounded hl
    obtain ⟨k, m, ss, rfl⟩ := hb.walking
    have hplain : fs.follow ⟨true, false⟩ p = o :=
      (hfollow false).trans ((hb.outcome hstop false).resolve_right fun h => Bool.false_ne_true h.1)
    have hmeasured : fs.follow ⟨true, true⟩ p = o := by
      refine (hfollow true).trans ((hb.outcome hstop true).resolve_right fun h => ?_)
      rw [realPath, hfollow true, h.2] at hreal
      cases hreal
    rw [present, lookup, hplain] at hpresent
    rw [realPath, hmeasured] at hreal
    cases hstop with
    | arrived =>
      obtain ⟨e, he⟩ := hground.1
      have hentry : Except.ok (Place.taken m) >>= Place.entry fs = .ok e := entry_taken he
      rw [hentry] at hpresent
      cases hpresent
      cases hreal
      rfl
    | vacant =>
      cases hpresent
      cases hreal
      rfl
    | noDirectory =>
      cases hpresent
      cases hreal
      rfl
    | tooLong => cases hpresent
    | missing =>
      cases hpresent
      cases hreal
      rfl
    | exhausted => cases hpresent

/-- From a removed directory no relative path has a real path. -/
theorem realPath_of_removed {there : Bool} (hpresent : fs.present p = .ok there)
    (ha : p.isAbsolute = false) (hlost : fs.standpoint.lost ≠ 0) : fs.realPath p = .ok none := by
  obtain ⟨hnul, -⟩ := not_or.mp (not_isRefused_of_present hpresent)
  rw [realPath, follow, if_neg hnul]
  by_cases he : p.isEmpty = true
  · rw [if_pos he]
    rfl
  · rw [if_neg he, if_neg (fun h => h.1 rfl), if_neg (by simp [ha]), if_pos ⟨rfl, hlost⟩]
    rfl

theorem readOptional_of_bytes {bytes : List UInt8} (h : fs.readBytes p = .ok bytes) :
    fs.readOptional p = .ok (some (Utf8.decodeLossy bytes)) := by
  rw [readOptional, readLossy, h]
  rfl

theorem readOptional_of_error {e : Fault} (h : fs.readBytes p = .error e) (he : e ≠ .notFound) :
    fs.readOptional p = .error e := by
  rw [readOptional, readLossy, h]
  cases e <;> first | rfl | exact absurd rfl he

theorem readOptional_eq_none_iff :
    fs.readOptional p = .ok none ↔ fs.readBytes p = .error .notFound := by
  cases h : fs.readBytes p with
  | ok bytes => simp [readOptional_of_bytes h]
  | error e =>
    by_cases he : e = .notFound
    · rw [readOptional, readLossy, h, he]
      exact ⟨fun _ => rfl, fun _ => rfl⟩
    · simp [readOptional_of_error h he, he]

theorem readBytes_of_lookup_error (h : fs.lookup p = .error f) : fs.readBytes p = .error f := by
  rw [readBytes, h]
  rfl

/-- Where there is nothing no text is read, but a path through a file counts as a fault in that. -/
theorem readOptional_of_absent (h : fs.present p = .ok false) :
    (fs.readOptional p = .ok none ↔ ¬ fs.RunsThroughFile p) ∧
      (fs.RunsThroughFile p → fs.readOptional p = .error .notADirectory) := by
  have hthrough : fs.RunsThroughFile p ↔ fs.lookup p = .error .notADirectory :=
    (follow_eq_notADirectory_iff (not_isRefused_of_present h)).symm.trans
      (lookup_eq_error_iff (by decide)).symm
  obtain h | h := present_eq_false_iff.mp h
  · have hread := readBytes_of_lookup_error h
    rw [hthrough, h, readOptional_eq_none_iff, hread]
    simp
  · have hread := readOptional_of_error (readBytes_of_lookup_error h) (by decide)
    rw [hthrough, h, hread]
    simp

/-- What is there has a real path and what is missing has none, wherever one stands on the disk; a
removed directory is still there for who stands in it, but no path from it has a real one. Of what
is missing no text is read either, unless the path runs through a file, where that is a fault. -/
theorem absence_agrees (fs : FileSystem) (p : Path) :
    (∀ there real?, fs.present p = .ok there → fs.realPath p = .ok real? →
      (p.isAbsolute = true ∨ fs.StandsOnDisk → there = real?.isSome) ∧
      (p.isAbsolute = false → fs.standpoint.lost ≠ 0 → real? = none)) ∧
    (fs.present p = .ok false →
      (fs.readOptional p = .ok none ↔ ¬ fs.RunsThroughFile p) ∧
      (fs.RunsThroughFile p → fs.readOptional p = .error .notADirectory)) := by
  refine ⟨fun there real? hpresent hreal => ⟨present_eq_isSome_realPath hpresent hreal, ?_⟩,
    readOptional_of_absent⟩
  intro ha hlost
  rw [realPath_of_removed hpresent ha hlost] at hreal
  cases hreal
  rfl

def littered : FileSystem where
  entries := [(.ofNames ["f"], .file []), (.ofNames ["l"], .link (.ofString "/gone/x")),
    (.ofNames ["m"], .link (.ofString "f/x"))]
  standpoint := { location := [] }

theorem absence_agrees_littered :
    littered.StandsOnDisk ∧
    littered.present (.ofString "l") = .ok false ∧ littered.realPath (.ofString "l") = .ok none ∧
    (∀ real?, littered.realPath (.ofString "l") = .ok real? → false = real?.isSome) ∧
    ¬ littered.RunsThroughFile (.ofString "l") ∧
    littered.readOptional (.ofString "l") = .ok none ∧
    littered.present (.ofString "m") = .ok false ∧ littered.RunsThroughFile (.ofString "m") ∧
    littered.readOptional (.ofString "m") = .error .notADirectory := by
  have hstand : littered.StandsOnDisk := ⟨rfl, grounded_nil⟩
  have hdangling : littered.present (.ofString "l") = .ok false := by cbv
  have hthrough : littered.present (.ofString "m") = .ok false := by cbv
  have hreal : littered.realPath (.ofString "l") = .ok none := by cbv
  have hfollow : littered.follow ⟨true, false⟩ (.ofString "l") = .error .notFound := by cbv
  have hnot : ¬ littered.RunsThroughFile (.ofString "l") := by
    rw [← follow_eq_notADirectory_iff (not_isRefused_of_present hdangling), hfollow]
    intro h
    cases h
  have hm : littered.RunsThroughFile (.ofString "m") := by
    rw [← follow_eq_notADirectory_iff (not_isRefused_of_present hthrough)]
    cbv
  exact ⟨hstand, hdangling, hreal,
    fun _ h => ((absence_agrees littered (.ofString "l")).1 _ _ hdangling h).1 (Or.inr hstand),
    hnot,
    ((absence_agrees littered (.ofString "l")).2 hdangling).1.mpr hnot, hthrough, hm,
    ((absence_agrees littered (.ofString "m")).2 hthrough).2 hm⟩

/-- What would lie below a file is missing, but to ask for its text is a fault. -/
theorem below_file_not_read :
    littered.present (.ofString "/f/x") = .ok false ∧
    littered.realPath (.ofString "/f/x") = .ok none ∧
    littered.readOptional (.ofString "/f/x") = .error .notADirectory := by
  refine ⟨?_, ?_, ?_⟩ <;> cbv

end Monorepo.FileSystem
