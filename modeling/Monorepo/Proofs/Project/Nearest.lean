import Monorepo.Proofs.Project
import Monorepo.Proofs.Project.Directory

/-! The way up from a directory. The first directory that is not passed over decides, be it with a
configuration or with an error, and a search from any directory on the way ends there too. -/
namespace Monorepo

namespace Path
variable {p q : Path} {n : Nat}

def ancestor? (p : Path) : Nat → Option Path
  | 0 => some p
  | n + 1 => (p.ancestor? n).bind parent?

theorem ancestor?_add (p : Path) (m n : Nat) :
    p.ancestor? (m + n) = (p.ancestor? m).bind (·.ancestor? n) := by
  induction n with
  | zero => exact (Option.bind_fun_some _).symm
  | succ n ih =>
    rw [← Nat.add_assoc, ancestor?, ih, Option.bind_assoc]
    rfl

theorem ancestor?_succ (p : Path) (n : Nat) :
    p.ancestor? (n + 1) = p.parent?.bind (·.ancestor? n) := by
  rw [Nat.add_comm, ancestor?_add]
  rfl

/-- The way up from a location ends at the root. -/
theorem ancestor?_path_length (l : Location) (hl : ∀ s ∈ l, Component.IsName s) :
    (Location.path l).ancestor? l.length = some (Location.path []) := by
  induction l using List.reverseRecOn with
  | nil => rfl
  | append_singleton l s ih =>
    rw [List.length_append, List.length_singleton, ancestor?_succ,
      FileSystem.parent?_path_append l s hl]
    exact ih fun t ht => hl t (List.mem_append_left _ ht)

theorem normal_of_parent? (ha : p.isAbsolute = true) (hn : p.normalize = p)
    (h : p.parent? = some q) : q.isAbsolute = true ∧ q.normalize = q := by
  obtain ⟨l, hl, rfl⟩ := FileSystem.exists_eq_path p ha hn
  cases l using List.reverseRecOn with
  | nil => cases h
  | append_singleton l s _ =>
    rw [FileSystem.parent?_path_append l s hl] at h
    cases h
    exact ⟨rfl, FileSystem.normalize_path l fun t ht => hl t (List.mem_append_left _ ht)⟩

theorem normal_of_ancestor? (ha : p.isAbsolute = true) (hn : p.normalize = p)
    (h : p.ancestor? n = some q) : q.isAbsolute = true ∧ q.normalize = q := by
  induction n generalizing q with
  | zero =>
    cases h
    exact ⟨ha, hn⟩
  | succ n ih =>
    obtain ⟨r, hr, hq⟩ := Option.bind_eq_some_iff.mp h
    obtain ⟨hra, hrn⟩ := ih hr
    exact normal_of_parent? hra hrn hq

end Path

namespace Project
variable {fs : FileSystem} {env : Environment} {dir : Path}

def ListsPackages (v : Json) : Prop :=
  (∃ items, v.find? "workspaces" = some (.array items)) ∨
    (∃ w items, v.find? "workspaces" = some w ∧ w.find? "packages" = some (.array items)) ∨
    ∃ items, v.find? "packages" = some (.array items)

theorem isSome_workspaceItems?_iff (v : Json) :
    (workspaceItems? v).isSome = true ↔ ListsPackages v := by
  simp only [workspaceItems?_eq, Option.isSome_or, Bool.or_eq_true, Option.isSome_iff_exists,
    Option.bind_eq_some_iff, Json.listUnder?_eq_some_iff, ListsPackages, or_assoc]
  rw [exists_comm]

theorem isSome_workspaceItems?_withoutRepeats (v : Json) :
    (workspaceItems? v.withoutRepeats).isSome = (workspaceItems? v).isSome := by
  simp only [workspaceItems?_eq, Option.isSome_or, Json.isSome_listUnder?_withoutRepeats,
    Json.find?_withoutRepeats]
  cases v.find? "workspaces" with
  | none => rfl
  | some w => simp [Json.isSome_listUnder?_withoutRepeats]

/-- What a workspace file does where a search goes on: it is not there, or holds no list of
packages. -/
def IsPassedOver (fs : FileSystem) (file : Path) : Prop :=
  fs.readBytes file = .error .notFound ∨
    ∃ bytes v, fs.readBytes file = .ok bytes ∧ Json.Holds (Utf8.decodeLossy bytes) v ∧
      ¬ ListsPackages v

/-- The directory has no file of its own and no workspace file that lists packages. Each workspace
file that it has must be well-formed: the reader takes it. -/
def OffersNothing (fs : FileSystem) (dir : Path) : Prop :=
  fs.readBytes (ownFile dir) = .error .notFound ∧
    ∀ name ∈ workspaceFiles, IsPassedOver fs (dir.join (.ofString name))

theorem workspaceConfig?_eq_none_iff {path : Path} {v : Json} :
    workspaceConfig? path v = .ok none ↔ ¬ (workspaceItems? v).isSome = true := by
  rw [workspaceConfig?_eq, workspaceRoots?]
  cases workspaceItems? v with
  | none => exact ⟨fun _ => nofun, fun _ => rfl⟩
  | some items =>
    constructor
    · intro h
      obtain ⟨c, -, h⟩ := (map_eq_ok_iff _ _ _).mp h
      cases h
    · intro h
      exact absurd rfl h

theorem findInFiles_cons_eq_none_iff {name : String} {names : List String} :
    findInFiles fs env dir (name :: names) = .ok none ↔
      IsPassedOver fs (dir.join (.ofString name)) ∧ findInFiles fs env dir names = .ok none := by
  unfold IsPassedOver
  cases hr : fs.readBytes (dir.join (.ofString name)) with
  | error e =>
    by_cases he : e = .notFound
    · subst he
      rw [findInFiles_of_none (FileSystem.readOptional_eq_none_iff.mpr hr)]
      simp
    · rw [findInFiles_of_error (FileSystem.readOptional_of_error hr he)]
      simp [he]
  | ok bytes =>
    rw [findInFiles_of_text (FileSystem.readOptional_of_bytes hr)]
    constructor
    · intro h
      obtain ⟨v, hv, h⟩ := (bind_eq_ok_iff _ _ _).mp h
      obtain ⟨c?, hc, hrest⟩ := (bind_eq_ok_iff _ _ _).mp h
      cases c? with
      | some c => cases hrest
      | none =>
        obtain ⟨w, hw, rfl⟩ := Json.parse_eq_ok_iff.mp ((mapError_eq_ok_iff _ _ _).mp hv)
        rw [workspaceConfig?_eq_none_iff, isSome_workspaceItems?_withoutRepeats,
          isSome_workspaceItems?_iff] at hc
        exact ⟨Or.inr ⟨bytes, w, rfl, hw, hc⟩, hrest⟩
    · rintro ⟨h | ⟨_, w, hb, hw, hl⟩, hrest⟩
      · cases h
      · cases hb
        have hc : workspaceConfig? (dir.join (.ofString name)) w.withoutRepeats = .ok none := by
          rwa [workspaceConfig?_eq_none_iff, isSome_workspaceItems?_withoutRepeats,
            isSome_workspaceItems?_iff]
        rw [Json.parse_eq_ok_iff.mpr ⟨w, hw, rfl⟩]
        change (workspaceConfig? _ _ >>= _) = _
        rw [hc]
        exact hrest

theorem findInFiles_eq_none_iff {names : List String} :
    findInFiles fs env dir names = .ok none ↔
      ∀ name ∈ names, IsPassedOver fs (dir.join (.ofString name)) := by
  induction names with
  | nil => exact ⟨fun _ => nofun, fun _ => rfl⟩
  | cons name names ih => rw [findInFiles_cons_eq_none_iff, ih, List.forall_mem_cons]

theorem findIn_eq_none_iff : findIn fs env dir = .ok none ↔ OffersNothing fs dir := by
  unfold OffersNothing
  cases hr : fs.readBytes (ownFile dir) with
  | error e =>
    by_cases he : e = .notFound
    · subst he
      rw [findIn_of_none (FileSystem.readOptional_eq_none_iff.mpr hr), findInFiles_eq_none_iff]
      simp
    · rw [findIn_of_error (FileSystem.readOptional_of_error hr he)]
      simp [he]
  | ok bytes =>
    rw [findIn_of_bytes hr]
    cases Config.ofText (ownFile dir) (Utf8.decodeLossy bytes) <;> simp [Except.map]

/-- `d` stands `n` steps above `dir` and is the first directory that is not passed over. -/
structure IsFirst (fs : FileSystem) (env : Environment) (dir : Path) (n : Nat) (d : Path) :
    Prop where
  ancestor : dir.ancestor? n = some d
  answers : findIn fs env d ≠ .ok none
  passed : ∀ m < n, ∀ e, dir.ancestor? m = some e → findIn fs env e = .ok none

variable {d : Path} {n limit : Nat}

theorem findUpwards_of_answer (h : findIn fs env dir ≠ .ok none) :
    findUpwards fs env (n + 1) dir = findIn fs env dir := by
  rw [findUpwards]
  cases hf : findIn fs env dir with
  | error e => rfl
  | ok found =>
    cases found with
    | none => exact absurd hf h
    | some p => rfl

theorem findUpwards_of_none (h : findIn fs env dir = .ok none) :
    findUpwards fs env (n + 1) dir =
      dir.parent?.elim (.ok none) (findUpwards fs env n) := by
  rw [findUpwards, h]
  dsimp only [bind, Except.bind]
  cases dir.parent? <;> rfl

theorem IsFirst.parent (h : IsFirst fs env dir (n + 1) d) :
    findIn fs env dir = .ok none ∧ ∃ parent, dir.parent? = some parent ∧
      IsFirst fs env parent n d := by
  refine ⟨h.passed 0 (Nat.succ_pos n) dir rfl, ?_⟩
  have hd := h.ancestor
  rw [Path.ancestor?_succ] at hd
  obtain ⟨parent, hparent, hd⟩ := Option.bind_eq_some_iff.mp hd
  refine ⟨parent, hparent, hd, h.answers, fun m hm e he => ?_⟩
  refine h.passed (m + 1) (Nat.succ_lt_succ hm) e ?_
  rw [Path.ancestor?_succ, hparent]
  exact he

theorem IsFirst.findUpwards (h : IsFirst fs env dir n d) (hn : n < limit) :
    Project.findUpwards fs env limit dir = findIn fs env d := by
  -- each step up uses one of the limit, so the limit is as far off as before
  induction n generalizing dir limit with
  | zero =>
    obtain ⟨limit, rfl⟩ := Nat.exists_eq_add_one.mpr hn
    obtain rfl : dir = d := Option.some.inj h.ancestor
    exact findUpwards_of_answer h.answers
  | succ n ih =>
    obtain ⟨limit, rfl⟩ := Nat.exists_eq_add_one.mpr (Nat.zero_lt_of_lt hn)
    obtain ⟨hnone, parent, hparent, hfirst⟩ := h.parent
    rw [findUpwards_of_none hnone, hparent]
    exact ih hfirst (Nat.lt_of_succ_lt_succ hn)

theorem findUpwards_eq_none
    (h : ∀ m < limit, ∀ e, dir.ancestor? m = some e → findIn fs env e = .ok none) :
    findUpwards fs env limit dir = .ok none := by
  induction limit generalizing dir with
  | zero => rfl
  | succ limit ih =>
    rw [findUpwards_of_none (h 0 (Nat.succ_pos limit) dir rfl)]
    cases hparent : dir.parent? with
    | none => rfl
    | some parent =>
      refine ih fun m hm e he => h (m + 1) (Nat.succ_lt_succ hm) e ?_
      rw [Path.ancestor?_succ, hparent]
      exact he

/-- If no directory is the first, all are passed over. -/
theorem passed_of_not_isFirst (h : ∀ n < limit, ∀ d, ¬ IsFirst fs env dir n d) :
    ∀ m < limit, ∀ e, dir.ancestor? m = some e → findIn fs env e = .ok none := by
  intro m
  induction m using Nat.strong_induction_on with
  | _ m ih =>
    intro hm e he
    by_contra hne
    exact h m hm e ⟨he, hne, fun k hk => ih k hk (hk.trans hm)⟩

/-- From each directory on the way the first one is the same. -/
theorem IsFirst.of_ancestor? {m : Nat} {e : Path} (h : IsFirst fs env dir n d) (hm : m ≤ n)
    (he : dir.ancestor? m = some e) : IsFirst fs env e (n - m) d := by
  have hadd (k : Nat) : e.ancestor? k = dir.ancestor? (m + k) := by
    rw [Path.ancestor?_add, he]
    rfl
  refine ⟨?_, h.answers, fun k hk e' he' => ?_⟩
  · rw [hadd, Nat.add_sub_cancel' hm]
    exact h.ancestor
  · rw [hadd] at he'
    exact h.passed (m + k) (by omega) e' he'

theorem absolute_eq {here start : Path} (h : fs.currentDirectory = .ok here) :
    absolute fs start = .ok (here.join start).normalize := by
  unfold absolute
  by_cases ha : start.isAbsolute = true
  · rw [if_pos ha, Path.join_of_isAbsolute here start ha]
  · rw [if_neg ha, h]
    rfl

theorem find_eq_findUpwards {start here : Path} (hroot : env.root = none)
    (hconfig : env.config = none) (hh : fs.currentDirectory = .ok here) :
    find fs env start = findUpwards fs env searchLimit (here.join start).normalize >>= fun
      | some project => .ok project
      | none => .error (.notFound (here.join start).normalize) := by
  rw [find_eq, hroot]
  change findElsewhere fs env start = _
  rw [findElsewhere, hconfig]
  change (absolute fs start >>= _) = _
  rw [absolute_eq hh]
  change (findUpwards fs env searchLimit _ >>= _) = _
  refine congrArg (_ >>= ·) (funext fun found => ?_)
  cases found <;> rfl

theorem isAbsolute_of_currentDirectory {here : Path} (h : fs.currentDirectory = .ok here) :
    here.isAbsolute = true :=
  Registry.isAbsolute_currentDirectory h

theorem IsFirst.find {start here : Path} (hroot : env.root = none) (hconfig : env.config = none)
    (hh : fs.currentDirectory = .ok here)
    (h : IsFirst fs env (here.join start).normalize n d) (hn : n < searchLimit) :
    (Project.find fs env start).map some = findIn fs env d := by
  rw [find_eq_findUpwards hroot hconfig hh, h.findUpwards hn]
  cases hf : findIn fs env d with
  | error e => rfl
  | ok found =>
    cases found with
    | none => exact absurd hf h.answers
    | some p => rfl

/-- A search gives what the first directory gives that is not passed over, from its start up to the
root and within the limit: a configuration or an error. It gives the same configuration from each
directory up to that one. Passed over is a directory that offers nothing. -/
theorem find_eq_nearest (fs : FileSystem) (env : Environment) (start here dir : Path)
    (hroot : env.root = none) (hconfig : env.config = none)
    (hh : fs.currentDirectory = .ok here) (hdir : dir = (here.join start).normalize) :
    (∃ n, dir.ancestor? n = some (.ofString "/") ∧ dir.ancestor? (n + 1) = none) ∧
    (∀ d, findIn fs env d = .ok none ↔ OffersNothing fs d) ∧
    (∀ n < searchLimit, ∀ d, IsFirst fs env dir n d →
      (find fs env start).map some = findIn fs env d ∧
      ∀ p, findIn fs env d = .ok (some p) → ∀ m ≤ n, ∀ e, dir.ancestor? m = some e →
        find fs env e = .ok p) ∧
    ((∀ n < searchLimit, ∀ d, ¬ IsFirst fs env dir n d) →
      find fs env start = .error (.notFound dir)) := by
  have ha : dir.isAbsolute = true := by
    rw [hdir, Path.isAbsolute_normalize]
    exact Path.isAbsolute_join here start (isAbsolute_of_currentDirectory hh)
  have hnormal : dir.normalize = dir := by rw [hdir, Path.normalize_normalize]
  refine ⟨?_, fun d => findIn_eq_none_iff, ?_, ?_⟩
  · obtain ⟨l, hl, rfl⟩ := FileSystem.exists_eq_path dir ha hnormal
    have htop := Path.ancestor?_path_length l hl
    refine ⟨l.length, htop, ?_⟩
    rw [Path.ancestor?, htop]
    exact FileSystem.parent?_path_nil
  · intro n hn d h
    refine ⟨(hdir ▸ h).find hroot hconfig hh hn, fun p hp m hm e he => ?_⟩
    obtain ⟨hea, hen⟩ := Path.normal_of_ancestor? ha hnormal he
    have hstart : (here.join e).normalize = e := by rw [Path.join_of_isAbsolute here e hea, hen]
    have hfirst : IsFirst fs env (here.join e).normalize (n - m) d := by
      rw [hstart]
      exact h.of_ancestor? hm he
    have hfind := hfirst.find hroot hconfig hh (Nat.lt_of_le_of_lt (Nat.sub_le n m) hn)
    rw [hp] at hfind
    obtain ⟨q, hq, hqp⟩ := (map_eq_ok_iff _ _ _).mp hfind
    cases hqp
    exact hq
  · intro h
    rw [find_eq_findUpwards hroot hconfig hh, ← hdir,
      findUpwards_eq_none (passed_of_not_isFirst h)]
    rfl

def nested : FileSystem where
  entries := [(.ofNames ["w"], .directory), (.ofNames ["w", "a"], .directory),
    (.ofNames ["w", configFile], .file (Utf8.encode "[\"*\"]".toList)),
    (.ofNames ["w", "a", "package.json"],
      .file (Utf8.encode "\x7b\"name\":\"a\"\x7d".toList))]
  standpoint := { location := .ofNames ["w"] }

def nestedProject : Project :=
  settle {} (ownFile (.ofString "/w")) (.ofString "/w") { packages := [.root "*"] }

theorem find_eq_nearest_nested :
    OffersNothing nested (.ofString "/w/a") ∧
    find nested {} (.ofString "a") = .ok nestedProject ∧
    find nested {} (.ofString "/w") = .ok nestedProject := by
  have hnone : findIn nested {} (.ofString "/w/a") = .ok none := by cbv
  have hsome : findIn nested {} (.ofString "/w") = .ok (some nestedProject) := by cbv
  have hfirst : IsFirst nested {} (.ofString "/w/a") 1 (.ofString "/w") := by
    refine ⟨by cbv, by simp [hsome], fun m hm e he => ?_⟩
    obtain rfl := Nat.lt_one_iff.mp hm
    cases he
    exact hnone
  obtain ⟨-, hoffers, hfound, -⟩ := find_eq_nearest nested {} (.ofString "a") (.ofString "/w")
    (.ofString "/w/a") rfl rfl rfl (by cbv)
  obtain ⟨hfind, hsame⟩ := hfound 1 (by decide) _ hfirst
  refine ⟨(hoffers _).mp hnone, ?_, hsame _ hsome 1 le_rfl _ hfirst.ancestor⟩
  rw [hsome] at hfind
  obtain ⟨q, hq, hqp⟩ := (map_eq_ok_iff _ _ _).mp hfind
  cases hqp
  exact hq

end Project
end Monorepo
