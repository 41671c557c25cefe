import Monorepo.FileSystem.Query
import Monorepo.Proofs.FileSystem.RealPath
import Monorepo.Proofs.Outcome

/-! What does not depend on where one stands. A path from the root leads to the same place from
everywhere, since links count from where they are met. -/
namespace Monorepo.FileSystem

def standingAt (fs : FileSystem) (s : Standpoint) : FileSystem := { fs with standpoint := s }

variable {fs : FileSystem} {s : Standpoint} {p : Path} {how : Manner}

theorem entry?_standingAt (l : Location) : entry? (fs.standingAt s) l = fs.entry? l := rfl

theorem isDirectoryAt_standingAt (l : Location) :
    (fs.standingAt s).isDirectoryAt l = fs.isDirectoryAt l := rfl

theorem walk_standingAt (k : Nat) (l : Location) (ss : List Segment) :
    (fs.standingAt s).walk how k l ss = fs.walk how k l ss := by
  -- a link that is followed leaves fewer of them, and all else leaves fewer segments
  induction k using Nat.strongRecOn generalizing l ss with
  | ind k ihk =>
    induction ss generalizing l with
    | nil => rw [walk, walk]
    | cons t ss ih =>
      rw [walk.eq_def, walk.eq_def fs]
      simp only [ih, isDirectoryAt_standingAt, entry?_standingAt]
      cases k with
      | zero => rfl
      | succ n => simp only [ihk n (Nat.lt_succ_self n)]

theorem follow_standingAt (ha : p.isAbsolute = true) :
    (fs.standingAt s).follow how p = fs.follow how p := by
  simp only [follow, ha, if_true, walk_standingAt]

theorem entry_standingAt (place : Place) : place.entry (fs.standingAt s) = place.entry fs := by
  cases place <;> rfl

theorem lookup_standingAt (ha : p.isAbsolute = true) :
    (fs.standingAt s).lookup p = fs.lookup p := by
  rw [lookup, lookup, follow_standingAt ha, funext entry_standingAt]

theorem lookupLink_standingAt (ha : p.isAbsolute = true) :
    (fs.standingAt s).lookupLink p = fs.lookupLink p := by
  rw [lookupLink, lookupLink, follow_standingAt ha, funext entry_standingAt]

theorem present_standingAt (ha : p.isAbsolute = true) :
    (fs.standingAt s).present p = fs.present p := by
  rw [present, present, lookup_standingAt ha]

theorem isDirectory_standingAt (ha : p.isAbsolute = true) :
    (fs.standingAt s).isDirectory p = fs.isDirectory p := by
  rw [isDirectory, isDirectory, lookup_standingAt ha]

theorem isListed_standingAt (ha : p.isAbsolute = true) :
    (fs.standingAt s).isListed p = fs.isListed p := by
  rw [isListed, isListed, lookupLink_standingAt ha]

theorem list_standingAt (ha : p.isAbsolute = true) : (fs.standingAt s).list p = fs.list p := by
  rw [list, list, follow_standingAt ha]
  rfl

theorem realPath_standingAt (ha : p.isAbsolute = true) :
    (fs.standingAt s).realPath p = fs.realPath p := by
  rw [realPath, realPath, follow_standingAt ha]

theorem readBytes_standingAt (ha : p.isAbsolute = true) :
    (fs.standingAt s).readBytes p = fs.readBytes p := by
  rw [readBytes, readBytes, lookup_standingAt ha]

theorem readOptional_standingAt (ha : p.isAbsolute = true) :
    (fs.standingAt s).readOptional p = fs.readOptional p := by
  rw [readOptional, readOptional, readLossy, readLossy, readBytes_standingAt ha]

theorem readText_standingAt (ha : p.isAbsolute = true) :
    (fs.standingAt s).readText p = fs.readText p := by
  rw [readText, readText, readBytes_standingAt ha]

/-- The path of a directory leads to it by its own name: no link stands there or above. -/
def IsUnlinked (fs : FileSystem) (dir : Path) : Prop :=
  ∀ l, l <+: dir.place → ∀ target, fs.entry? l ≠ some (.link target)

section
variable {k : Nat} {here : Location} {t : Segment} {names : List Segment} {place : Place}

theorem walk_name (ht : Component.IsName t)
    (hlink : ∀ target, fs.entry? (here ++ [t]) ≠ some (.link target))
    (h : fs.walk how k here (t :: names) = .ok place) :
    fs.walk how k (here ++ [t]) names = .ok place ∨ (names = [] ∧ place = .free (here ++ [t])) := by
  rw [walk.eq_def] at h
  dsimp only at h
  rw [if_neg (not_isBlank_of_isName ht), if_neg ht.2.2.1] at h
  -- three ways to fail come before what is there is looked at
  split at h
  · cases h
  · split at h
    · cases h
    · split at h
      · cases h
      · split at h
        · split at h <;> cases h
          exact Or.inr ⟨‹_›, rfl⟩
        · next target he => exact absurd he (hlink target)
        · exact Or.inl h

/-- A walk that meets no link goes by the names it was given. -/
theorem walk_unlinked (hnames : ∀ t ∈ names, Component.IsName t)
    (hlinks : ∀ m, m <+: here ++ names → ∀ target, fs.entry? m ≠ some (.link target))
    (h : fs.walk how k here names = .ok place) :
    place = .taken (here ++ names) ∨ place = .free (here ++ names) := by
  induction names generalizing here with
  | nil =>
    rw [walk] at h
    cases h
    exact Or.inl (by rw [List.append_nil])
  | cons t names ih =>
    rw [List.append_cons] at hlinks ⊢
    obtain h | ⟨rfl, rfl⟩ :=
      walk_name (hnames t List.mem_cons_self) (hlinks _ (List.prefix_append _ _)) h
    · exact ih (fun u hu => hnames u (List.mem_cons_of_mem t hu)) hlinks h
    · exact Or.inr (by rw [List.append_nil])

theorem walk_path (hnames : ∀ t ∈ names, Component.IsName t) :
    fs.walk how k [] (segments (Location.path names).chars) = fs.walk how k [] names := by
  have hroot : fs.isDirectoryAt [] = true := rfl
  cases names with
  | nil =>
    change fs.walk how k [] [[], []] = _
    rw [walk_blank rfl hroot, walk_blank rfl hroot]
  | cons t names => rw [segments_path _ (List.cons_ne_nil t names) hnames, walk_blank rfl hroot]

theorem walk_of_follow (ha : p.isAbsolute = true) (h : fs.follow how p = .ok place) :
    fs.walk how linkLimit [] (segments p.chars) = .ok place := by
  unfold follow at h
  split_ifs at h
  exact h

end

variable {dir : Path} {there : FileSystem}

/-- Who goes to a directory by a path without links stands there by that path. -/
theorem changeDirectory_unlinked (ha : dir.isAbsolute = true) (hn : dir.normalize = dir)
    (hu : fs.IsUnlinked dir) (h : fs.changeDirectory dir = .ok there) :
    there = fs.standingAt { location := dir.place } ∧ there.currentDirectory = .ok dir := by
  obtain ⟨place, hplace, h⟩ := (bind_eq_ok_iff _ _ _).mp h
  have hwalk := walk_of_follow ha hplace
  obtain ⟨names, hnames, rfl⟩ := exists_eq_path dir ha hn
  rw [IsUnlinked, place_path names hnames] at hu
  rw [walk_path hnames] at hwalk
  rw [place_path names hnames]
  obtain rfl | rfl := walk_unlinked hnames (List.nil_append names ▸ hu) hwalk
  · dsimp only at h
    split_ifs at h
    cases h
    exact ⟨rfl, rfl⟩
  · cases h

end Monorepo.FileSystem
