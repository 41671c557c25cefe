import Monorepo.Proofs.Project.Nearest
import Monorepo.Proofs.Registry.Standpoint

/-! Where a configuration that is found lies. A file that is loaded and a directory on the way up
are given by paths from the root; a directory that the environment names is taken as it is
written. -/
namespace Monorepo.Project
open Monorepo.Path Monorepo.FileSystem
variable {fs : FileSystem} {env : Environment} {dir start : Path} {p : Project}

structure IsPlaced (p : Project) : Prop where
  isAbsolute_path : p.path.isAbsolute = true
  normal_path : p.path.normalize = p.path
  isAbsolute_root : p.root.isAbsolute = true
  normal_root : p.root.normalize = p.root
  parent : p.path.parent? = some p.root

structure IsRead (fs : FileSystem) (p : Project) : Prop where
  config_root : p.config.root = some p.root
  bytes : ∃ bytes, fs.readBytes p.path = .ok bytes

structure IsFoundIn (fs : FileSystem) (dir : Path) (p : Project) : Prop extends IsRead fs p where
  root_eq : p.root = dir
  mem : p.path ∈ filesIn dir

theorem exists_readBytes {path : Path} {text : String}
    (h : fs.readOptional path = .ok (some text)) : ∃ bytes, fs.readBytes path = .ok bytes := by
  cases hr : fs.readBytes path with
  | ok bytes => exact ⟨bytes, rfl⟩
  | error e =>
    by_cases he : e = .notFound
    · subst he
      rw [readOptional_eq_none_iff.mpr hr] at h
      cases h
    · rw [readOptional_of_error hr he] at h
      cases h

theorem isFoundIn_of_findInFiles {names : List String}
    (hnames : ∀ name ∈ names, dir.join (.ofString name) ∈ filesIn dir)
    (h : findInFiles fs env dir names = .ok (some p)) : IsFoundIn fs dir p := by
  induction names with
  | nil => cases h
  | cons name names ih =>
    have hrest := ih fun n hn => hnames n (List.mem_cons_of_mem _ hn)
    obtain ⟨text?, htext, h⟩ := (bind_eq_ok_iff _ _ _).mp h
    cases text? with
    | none => exact hrest h
    | some text =>
      obtain ⟨v, -, h⟩ := (bind_eq_ok_iff _ _ _).mp h
      obtain ⟨c?, -, h⟩ := (bind_eq_ok_iff _ _ _).mp h
      cases c? with
      | none => exact hrest h
      | some c =>
        cases h
        exact ⟨⟨rfl, exists_readBytes ((mapError_eq_ok_iff _ _ _).mp htext)⟩, rfl,
          hnames name List.mem_cons_self⟩

theorem isFoundIn_of_findIn (h : findIn fs env dir = .ok (some p)) : IsFoundIn fs dir p := by
  obtain ⟨text?, htext, h⟩ := (bind_eq_ok_iff _ _ _).mp h
  cases text? with
  | none =>
    exact isFoundIn_of_findInFiles
      (fun name hn => List.mem_map_of_mem (List.mem_cons_of_mem _ hn)) h
  | some text =>
    obtain ⟨c, -, h⟩ := (bind_eq_ok_iff _ _ _).mp h
    cases h
    exact ⟨⟨rfl, exists_readBytes ((mapError_eq_ok_iff _ _ _).mp htext)⟩, rfl,
      List.mem_cons_self⟩

theorem IsFoundIn.isPlaced_iff (h : IsFoundIn fs dir p) :
    p.IsPlaced ↔ dir.isAbsolute = true ∧ dir.normalize = dir := by
  obtain ⟨-, rfl, hmem⟩ := h
  constructor
  · intro hp
    exact ⟨hp.isAbsolute_root, hp.normal_root⟩
  · rintro ⟨ha, hn⟩
    obtain ⟨hpa, hpn, hparent⟩ := placed_of_mem_filesIn ha hn hmem
    exact ⟨hpa, hpn, ha, hn, hparent⟩

theorem normal_of_absolute {path q : Path} (h : absolute fs path = .ok q) :
    q.isAbsolute = true ∧ q.normalize = q := by
  unfold absolute at h
  split at h
  · next ha =>
    cases h
    exact ⟨by rw [isAbsolute_normalize, ha], normalize_normalize _⟩
  · obtain ⟨here, hhere, h⟩ := (bind_eq_ok_iff _ _ _).mp h
    have ha := isAbsolute_of_currentDirectory ((mapError_eq_ok_iff _ _ _).mp hhere)
    cases h
    exact ⟨by rw [isAbsolute_normalize, isAbsolute_join _ _ ha], normalize_normalize _⟩

theorem readBytes_root (fs : FileSystem) :
    fs.readBytes (Location.path []) = .error .isADirectory := by
  have hroot : fs.isDirectoryAt [] = true := rfl
  have hfollow : fs.follow ⟨true, false⟩ (Location.path []) = .ok (.taken []) := by
    change fs.walk ⟨true, false⟩ linkLimit [] [[], []] = _
    rw [walk_blank rfl hroot, walk_blank rfl hroot, walk]
  rw [readBytes, lookup, hfollow]
  rfl

/-- A file that is loaded is no root directory, so it has a place and a parent. -/
theorem isPlaced_of_load {path : Path} (h : load fs env path = .ok p) :
    IsRead fs p ∧ p.IsPlaced := by
  obtain ⟨q, hq, h⟩ := (bind_eq_ok_iff _ _ _).mp h
  obtain ⟨text, htext, h⟩ := (bind_eq_ok_iff _ _ _).mp h
  obtain ⟨c, -, h⟩ := (bind_eq_ok_iff _ _ _).mp h
  cases h
  obtain ⟨bytes, hbytes, -⟩ := (bind_eq_ok_iff _ _ _).mp ((mapError_eq_ok_iff _ _ _).mp htext)
  obtain ⟨ha, hn⟩ := normal_of_absolute hq
  refine ⟨⟨rfl, bytes, hbytes⟩, ?_⟩
  obtain ⟨l, hl, rfl⟩ := exists_eq_path q ha hn
  cases l using List.reverseRecOn with
  | nil =>
    rw [readBytes_root] at hbytes
    cases hbytes
  | append_singleton l s _ =>
    have hparent := parent?_path_append l s hl
    obtain ⟨hra, hrn⟩ := normal_of_parent? ha hn hparent
    refine ⟨ha, hn, ?_, ?_, ?_⟩
    · rwa [settle, hparent]
    · rwa [settle, hparent]
    · rw [settle, hparent]
      rfl

theorem isPlaced_of_findUpwards {n : Nat} (ha : dir.isAbsolute = true) (hn : dir.normalize = dir)
    (h : findUpwards fs env n dir = .ok (some p)) : IsRead fs p ∧ p.IsPlaced := by
  induction n generalizing dir with
  | zero => cases h
  | succ n ih =>
    obtain ⟨found, hfound, h⟩ := (bind_eq_ok_iff _ _ _).mp h
    cases found with
    | some project =>
      cases h
      have hfound := isFoundIn_of_findIn hfound
      exact ⟨hfound.toIsRead, hfound.isPlaced_iff.mpr ⟨ha, hn⟩⟩
    | none =>
      cases hp : dir.parent? with
      | none =>
        rw [hp] at h
        cases h
      | some parent =>
        rw [hp] at h
        obtain ⟨hpa, hpn⟩ := normal_of_parent? ha hn hp
        exact ih hpa hpn h

theorem isPlaced_of_findElsewhere (h : findElsewhere fs env start = .ok p) :
    IsRead fs p ∧ p.IsPlaced := by
  unfold findElsewhere at h
  cases hc : env.config with
  | some path =>
    rw [hc] at h
    exact isPlaced_of_load h
  | none =>
    rw [hc] at h
    obtain ⟨dir, hdir, h⟩ := (bind_eq_ok_iff _ _ _).mp h
    obtain ⟨found, hfound, h⟩ := (bind_eq_ok_iff _ _ _).mp h
    obtain ⟨ha, hn⟩ := normal_of_absolute hdir
    cases found with
    | none => cases h
    | some project =>
      cases h
      exact isPlaced_of_findUpwards ha hn hfound

def IsNamed (fs : FileSystem) (env : Environment) (dir : Path) (p : Project) : Prop :=
  env.root = some dir ∧ findIn fs env dir = .ok (some p)

theorem isNamed_or_findElsewhere (h : find fs env start = .ok p) :
    (∃ dir, IsNamed fs env dir p) ∨ findElsewhere fs env start = .ok p := by
  rw [find_eq] at h
  cases hr : env.root with
  | none =>
    rw [hr] at h
    exact Or.inr h
  | some root =>
    rw [hr] at h
    obtain ⟨found, hfound, h⟩ := (bind_eq_ok_iff _ _ _).mp h
    cases found with
    | none => exact Or.inr h
    | some project =>
      cases h
      exact Or.inl ⟨root, hr, hfound⟩

theorem isRead_of_find (h : find fs env start = .ok p) : IsRead fs p := by
  obtain ⟨dir, -, hfound⟩ | helse := isNamed_or_findElsewhere h
  · exact (isFoundIn_of_findIn hfound).toIsRead
  · exact (isPlaced_of_findElsewhere helse).1

/-- The registry below an absolute root is the same from everywhere, whatever the manifests say. -/
theorem registry_standingAt (hr : p.config.root = some p.root) (ha : p.root.isAbsolute = true)
    (fs : FileSystem) (s : Standpoint) :
    (∀ manifests, p.registry (fs.standingAt s) manifests = p.registry fs manifests) ∧
      p.registry (fs.standingAt s) (.ofFileSystem (fs.standingAt s)) =
        p.registry fs (.ofFileSystem fs) :=
  ⟨fun _ => Registry.build_standingAt hr ha fun _ _ => rfl,
    Registry.build_ofFileSystem_standingAt hr ha⟩

/-- A configuration that is found was read from a file, and is placed unless it is the one of a
directory that the environment names by a path with detours or one not from the root. That directory
counts as it is written. If the root is absolute, no registry depends on where one then stands. -/
theorem isPlaced_iff_of_find (h : find fs env start = .ok p) :
    IsRead fs p ∧
    (p.IsPlaced ↔
      ∀ dir, IsNamed fs env dir p → dir.isAbsolute = true ∧ dir.normalize = dir) ∧
    (∀ dir, IsNamed fs env dir p → p.root = dir ∧ p.path ∈ filesIn dir) ∧
    (p.root.isAbsolute = true → ∀ fs' s,
      (∀ manifests, p.registry (fs'.standingAt s) manifests = p.registry fs' manifests) ∧
      p.registry (fs'.standingAt s) (.ofFileSystem (fs'.standingAt s)) =
        p.registry fs' (.ofFileSystem fs')) := by
  have hfound {dir : Path} (hdir : IsNamed fs env dir p) : IsFoundIn fs dir p :=
    isFoundIn_of_findIn hdir.2
  have hread := isRead_of_find h
  refine ⟨hread, ⟨fun hp dir hdir => (hfound hdir).isPlaced_iff.mp hp, fun hdirs => ?_⟩,
    fun dir hdir => ⟨(hfound hdir).root_eq, (hfound hdir).mem⟩,
    fun ha => registry_standingAt hread.config_root ha⟩
  obtain ⟨dir, hdir⟩ | helse := isNamed_or_findElsewhere h
  · exact (hfound hdir).isPlaced_iff.mpr (hdirs dir hdir)
  · exact (isPlaced_of_findElsewhere helse).2

def lowered : FileSystem where
  entries := [(.ofNames ["p"], .directory),
    (.ofNames ["p", configFile], .file (Utf8.encode "[\"a\"]".toList))]
  standpoint := { location := [] }

def loweredProject : Project :=
  settle {} (.ofString "p/universal-resolver.json") (.ofString "p") { packages := [.root "a"] }

/-- The environment names one directory from the root, and another from where one stands. -/
theorem isPlaced_iff_of_find_starred :
    find starred { root := some (.ofString "/p") } (.ofString "b") = .ok starredProject ∧
    IsNamed starred { root := some (.ofString "/p") } (.ofString "/p") starredProject ∧
    IsRead starred starredProject ∧ starredProject.IsPlaced ∧
    starredProject.root = .ofString "/p" ∧
    (∀ s, starredProject.registry (starred.standingAt s) .none =
      .ok ⟨[{ root := .ofString "/p/b" }]⟩) ∧
    find lowered { root := some (.ofString "p") } (.ofString "/") = .ok loweredProject ∧
    IsNamed lowered { root := some (.ofString "p") } (.ofString "p") loweredProject ∧
    ¬ loweredProject.IsPlaced := by
  have hfind : find starred { root := some (.ofString "/p") } (.ofString "b") =
      .ok starredProject := by cbv
  have hnamed : IsNamed starred { root := some (.ofString "/p") } (.ofString "/p") starredProject :=
    ⟨rfl, by cbv⟩
  have hbuild : starredProject.registry starred .none = .ok ⟨[{ root := .ofString "/p/b" }]⟩ := by
    cbv
  obtain ⟨hread, hplaced, hroot, hregistry⟩ := isPlaced_iff_of_find hfind
  have hp : starredProject.IsPlaced := by
    refine hplaced.mpr fun dir hdir => ?_
    obtain rfl : .ofString "/p" = dir := Option.some.inj hdir.1
    exact ⟨rfl, by decide⟩
  have hlow : find lowered { root := some (.ofString "p") } (.ofString "/") =
      .ok loweredProject := by cbv
  have hlowNamed :
      IsNamed lowered { root := some (.ofString "p") } (.ofString "p") loweredProject :=
    ⟨rfl, by cbv⟩
  refine ⟨hfind, hnamed, hread, hp, (hroot _ hnamed).1, fun s => ?_, hlow, hlowNamed, fun h => ?_⟩
  · rw [(hregistry hp.isAbsolute_root starred s).1, hbuild]
  · exact absurd (((isPlaced_iff_of_find hlow).2.1.mp h) _ hlowNamed).1 (by decide)

/-- A directory that is named from where one stands has its packages elsewhere once one has
moved. -/
theorem named_directory_moves :
    find lowered { root := some (.ofString "p") } (.ofString "/") = .ok loweredProject ∧
    ¬ loweredProject.IsPlaced ∧
    loweredProject.registry lowered .none = .ok ⟨[{ root := .ofString "/p/a" }]⟩ ∧
    loweredProject.registry (lowered.standingAt { location := .ofNames ["p"] }) .none =
      .ok ⟨[{ root := .ofString "/p/p/a" }]⟩ := by
  refine ⟨by cbv, fun hp => ?_, by cbv, by cbv⟩
  exact absurd hp.isAbsolute_root (by decide)

end Monorepo.Project
