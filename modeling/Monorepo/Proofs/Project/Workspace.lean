import Monorepo.Proofs.Config.Decode
import Monorepo.Proofs.Project.Directory

/-! A workspace file in place of a file of its own. A directory is given the same configuration by
the block of a workspace file as by a file that consists of the block, with the packages of the
workspace where the block has none. -/
namespace Monorepo
open Json

variable {members members' : List (String × Json)} {c : Config} {roots : List String}

def rootList (roots : List String) : Json := .array (roots.map .string)

def blockWithRoots (roots : List String) (members : List (String × Json)) :
    List (String × Json) :=
  match (Json.object members).find? "packages" with
  | none | some (.array []) => ("packages", rootList roots) :: members.filter (·.1 != "packages")
  | some _ => members

theorem items?_rootList (roots : List String) :
    Config.items? (some (rootList roots)) = some (roots.map .root) := by
  refine (mapM_eq_some_iff _ _ _).mpr ?_
  rw [List.forall₂_map_left_iff, List.forall₂_map_right_iff]
  exact List.forall₂_same.mpr fun r _ => rfl

namespace Config

/-- A configuration is described by whatever is found under the keys. -/
theorem Describes.with_packages {packages : List Item} (h : Describes members c)
    (hs : ∀ key ≠ "packages", single? members' key = single? members key)
    (hp : (single? members' "packages").bind items? = some packages) :
    Describes members' { c with packages } := by
  have hne : ∀ key ∈ textKeys ++ switchKeys, single? members' key = single? members key :=
    fun key hk => hs key (by rintro rfl; revert hk; decide)
  refine ⟨h.root, ?_, ?_, hp⟩
  · refine ((List.forall₂_and_left ..).mpr
      ⟨fun key hk => hne key (List.mem_append_left _ hk), h.texts⟩).imp fun key t ht => ?_
    rw [textUnder?, ht.1]
    exact ht.2
  · refine ((List.forall₂_and_left ..).mpr
      ⟨fun key hk => hne key (List.mem_append_right _ hk), h.switches⟩).imp fun key b hb => ?_
    rw [switchUnder?, hb.1]
    exact hb.2

theorem Describes.perm (h : Describes members c) (hp : members.Perm members') :
    Describes members' c := by
  have hs (key : String) : single? members' key = single? members key :=
    (single?_perm hp key).symm
  exact h.with_packages (fun key _ => hs key) (by rw [hs]; exact h.packages)

theorem Describes.replace (h : Describes members c) (roots : List String) :
    Describes (("packages", rootList roots) :: members.filter (·.1 != "packages"))
      { c with packages := roots.map .root } := by
  refine h.with_packages (fun key hk => ?_) ?_
  · rw [single?_cons_of_ne hk.symm, single?_filter_ne hk]
  · have hnone : single? (members.filter (·.1 != "packages")) "packages" = some none :=
      single?_eq_none_iff.mpr fun m hm => by simpa using (List.mem_filter.mp hm).2
    rw [single?_cons_self.mpr ⟨hnone, rfl⟩]
    exact items?_rootList roots

/-- What packages are put into a block are put into its configuration. -/
theorem Describes.blockWithRoots (h : Describes members c) (hn : (members.map (·.1)).Nodup)
    (roots : List String) :
    Describes (Monorepo.blockWithRoots roots members) (Project.withRoots roots c) := by
  have hp : items? ((Json.object members).find? "packages") = some c.packages := by
    have hp := h.packages
    rw [single?_eq_find? hn] at hp
    exact hp
  have hreplace (hnil : c.packages = []) : Project.withRoots roots c =
      { c with packages := roots.map .root } := if_pos hnil
  unfold Monorepo.blockWithRoots
  cases hf : (Json.object members).find? "packages" with
  | none =>
    rw [hf] at hp
    rw [hreplace (Option.some.inj hp).symm]
    exact h.replace roots
  | some v =>
    rw [hf] at hp
    cases v with
    | array items =>
      have hitems := (mapM_eq_some_iff _ _ _).mp hp
      cases items with
      | nil =>
        rw [hreplace (List.forall₂_nil_left_iff.mp hitems)]
        exact h.replace roots
      | cons v rest =>
        -- a package in the list is one in the configuration, so neither is replaced
        obtain ⟨i, more, -, -, hmore⟩ := List.forall₂_cons_left_iff.mp hitems
        have hkeep : Project.withRoots roots c = c := if_neg (by rw [hmore]; exact nofun)
        rw [hkeep]
        exact h
    | _ => cases hp

end Config

namespace Project
variable {fs fs' : FileSystem} {env : Environment} {dir : Path} {name : String} {v : Json}

/-- The value lists the packages with these roots, at one of the three places for them. -/
inductive ListsRoots (roots : List String) (v : Json) : Prop
  | workspaces (h : v.find? "workspaces" = some (rootList roots))
  | nested {w : Json} (hw : v.find? "workspaces" = some w)
    (h : w.find? "packages" = some (rootList roots))
  | packages (hw : v.find? "workspaces" = none) (h : v.find? "packages" = some (rootList roots))

theorem withoutRepeats_rootList (roots : List String) :
    (rootList roots).withoutRepeats = rootList roots := by
  refine withoutRepeats_eq_self _ ?_
  change DistinctKeysInItems (roots.map .string)
  induction roots with
  | nil => trivial
  | cons r rest ih => exact ⟨trivial, ih⟩

theorem ListsRoots.withoutRepeats (h : ListsRoots roots v) : ListsRoots roots v.withoutRepeats := by
  cases h with
  | workspaces h =>
    refine .workspaces ?_
    rw [find?_withoutRepeats, h, Option.map_some, withoutRepeats_rootList]
  | nested hw h =>
    refine .nested (by rw [find?_withoutRepeats, hw, Option.map_some]) ?_
    rw [find?_withoutRepeats, h, Option.map_some, withoutRepeats_rootList]
  | packages hw h =>
    refine .packages (by rw [find?_withoutRepeats, hw, Option.map_none]) ?_
    rw [find?_withoutRepeats, h, Option.map_some, withoutRepeats_rootList]

theorem ListsRoots.workspaceItems? (h : ListsRoots roots v) :
    Project.workspaceItems? v = some (roots.map .string) := by
  rw [workspaceItems?_eq]
  cases h with
  | workspaces h => rw [listUnder?_eq_some_iff.mpr h, Option.some_or, Option.some_or]
  | nested hw h =>
    obtain ⟨members, rfl, -⟩ := exists_mem_of_find? h
    rw [listUnder?, hw, Option.bind_some, listUnder?_eq_some_iff.mpr h]
    rfl
  | packages hw h =>
    rw [listUnder?, hw, Option.bind_none, listUnder?_eq_some_iff.mpr h]
    rfl

theorem ListsRoots.workspaceRoots? (h : ListsRoots roots v) :
    Project.workspaceRoots? v = some roots := by
  rw [Project.workspaceRoots?, h.workspaceItems?, Option.map_some, List.filterMap_map]
  exact congrArg some List.filterMap_some

theorem workspaceConfig?_of_block {path : Path} (h : ListsRoots roots v)
    (hb : v.find? "universal-resolver" = some (.object members))
    (hk : DistinctKeys (.object members)) (hc : Config.ofJson? (.object members) = some c) :
    workspaceConfig? path v.withoutRepeats = .ok (some (withRoots roots c)) := by
  have hblock : blockConfig path v.withoutRepeats = .ok c := by
    rw [blockConfig, find?_withoutRepeats, hb, Option.map_some, withoutRepeats_eq_self _ hk]
    exact (Config.ofValue_eq_ok_iff _).mpr hc
  rw [workspaceConfig?_eq, h.withoutRepeats.workspaceRoots?]
  change (blockConfig path v.withoutRepeats).map _ = _
  rw [hblock]
  rfl

/-- Of the files for configurations the directory has this one alone, a workspace file. It lists
these packages and has an object with these members for its block. -/
structure HasWorkspaceFile (fs : FileSystem) (dir : Path) (name : String) (roots : List String)
    (members : List (String × Json)) : Prop where
  isWorkspaceFile : name ∈ workspaceFiles
  noOwnFile : fs.readBytes (ownFile dir) = .error .notFound
  noOther : ∀ other ∈ workspaceFiles, other ≠ name →
    fs.readBytes (dir.join (.ofString other)) = .error .notFound
  holds : ∃ bytes v, fs.readBytes (dir.join (.ofString name)) = .ok bytes ∧
    Spells (Utf8.decodeLossy bytes) v ∧ nesting v ≤ depthLimit ∧ ListsRoots roots v ∧
    v.find? "universal-resolver" = some (.object members)

def HasOwnFile (fs : FileSystem) (dir : Path) (members : List (String × Json)) : Prop :=
  ∃ bytes members', fs.readBytes (ownFile dir) = .ok bytes ∧
    Spells (Utf8.decodeLossy bytes) (.object members') ∧ members'.Perm members

theorem findInFiles_of_only {names : List String} {text : String} (hn : name ∈ names)
    (hother : ∀ other ∈ names, other ≠ name →
      fs.readOptional (dir.join (.ofString other)) = .ok none)
    (ht : fs.readOptional (dir.join (.ofString name)) = .ok (some text))
    (hv : Json.parse text = .ok v)
    (hc : workspaceConfig? (dir.join (.ofString name)) v = .ok (some c)) :
    findInFiles fs env dir names = .ok (some (settle env (dir.join (.ofString name)) dir c)) := by
  induction names with
  | nil => cases hn
  | cons first names ih =>
    by_cases hf : first = name
    · subst hf
      rw [findInFiles_of_text ht, hv]
      change (workspaceConfig? _ v >>= _) = _
      rw [hc]
      rfl
    · obtain ⟨hnone, hother⟩ := List.forall_mem_cons.mp hother
      rw [findInFiles_of_none (hnone hf)]
      exact ih ((List.mem_cons.mp hn).resolve_left (Ne.symm hf)) hother

theorem HasWorkspaceFile.findIn (h : HasWorkspaceFile fs dir name roots members)
    (hk : DistinctKeys (.object members)) (hc : Config.ofJson? (.object members) = some c) :
    Project.findIn fs env dir =
      .ok (some (settle env (dir.join (.ofString name)) dir (withRoots roots c))) := by
  obtain ⟨bytes, v, hread, hv, hn, hroots, hblock⟩ := h.holds
  rw [findIn_of_none (FileSystem.readOptional_eq_none_iff.mpr h.noOwnFile)]
  refine findInFiles_of_only h.isWorkspaceFile (fun other ho hne => ?_)
    (FileSystem.readOptional_of_bytes hread) (parse_eq_ok_iff.mpr ⟨v, hv.holds hn, rfl⟩)
    (workspaceConfig?_of_block hroots hblock hk hc)
  exact FileSystem.readOptional_eq_none_iff.mpr (h.noOther other ho hne)

theorem HasWorkspaceFile.nesting_lt (h : HasWorkspaceFile fs dir name roots members) :
    nesting (.object members) < depthLimit := by
  obtain ⟨bytes, v, -, -, hn, -, hblock⟩ := h.holds
  exact Nat.lt_of_lt_of_le (nesting_lt_of_find? hblock) hn

theorem nesting_rootList_le (roots : List String) : nesting (rootList roots) ≤ 1 := by
  refine Nat.succ_le_succ (nestingOfItems_le_iff.mpr fun v hv => ?_)
  obtain ⟨r, -, rfl⟩ := List.mem_map.mp hv
  exact le_rfl

/-- Putting packages into a block does not nest it too deep. -/
theorem nesting_blockWithRoots (h : nesting (.object members) < depthLimit) :
    ∀ m ∈ blockWithRoots roots members, nesting m.2 < depthLimit := by
  have hmembers : ∀ m ∈ members, nesting m.2 < depthLimit := fun m hm =>
    Nat.lt_trans (Nat.lt_succ_of_le (nestingOfMembers_le_iff.mp le_rfl m hm)) h
  have hreplace : ∀ m ∈ ("packages", rootList roots) :: members.filter (·.1 != "packages"),
      nesting m.2 < depthLimit := by
    refine List.forall_mem_cons.mpr ⟨?_, fun m hm => hmembers m (List.mem_filter.mp hm).1⟩
    exact Nat.lt_of_le_of_lt (nesting_rootList_le roots) (by decide)
  unfold blockWithRoots
  split
  · exact hreplace
  · exact hreplace
  · exact hmembers

theorem HasOwnFile.findIn (h : HasOwnFile fs dir members) (hd : Config.Describes members c)
    (hn : ∀ m ∈ members, nesting m.2 < depthLimit) :
    Project.findIn fs env dir = .ok (some (settle env (ownFile dir) dir c)) := by
  obtain ⟨bytes, members', hread, hv, hp⟩ := h
  have hnesting : nesting (.object members') ≤ depthLimit := by
    refine Nat.succ_le_of_lt (Nat.lt_of_le_of_lt ?_ (show depthLimit - 1 < depthLimit by decide))
    exact nestingOfMembers_le_iff.mpr fun m hm => Nat.le_sub_one_of_lt (hn m (hp.mem_iff.mp hm))
  have hread? : Config.ofText (ownFile dir) (Utf8.decodeLossy bytes) = .ok c := by
    refine (Config.ofText_of_holds (hv.holds hnesting)).mpr ((Config.ofValue_eq_ok_iff _).mpr ?_)
    exact Config.ofRecord?_object_eq_some_iff.mpr (hd.perm hp.symm)
  rw [findIn_of_bytes hread, hread?]
  rfl

/-- A workspace file that lists packages and has a block gives its directory the same root and the
same configuration as a file of its own that consists of the block, with the packages of the
workspace put in where the block has none. -/
theorem workspace_file_stands_for_own (fs fs' : FileSystem) (env : Environment) (dir : Path)
    (name : String) (roots : List String) (members : List (String × Json)) (c : Config)
    (hk : DistinctKeys (.object members)) (hc : Config.ofJson? (.object members) = some c)
    (hw : HasWorkspaceFile fs dir name roots members)
    (ho : HasOwnFile fs' dir (blockWithRoots roots members)) :
    ∃ p p', findIn fs env dir = .ok (some p) ∧ findIn fs' env dir = .ok (some p') ∧
      p.root = p'.root ∧ p.config = p'.config := by
  have hd : Config.Describes members c := Config.ofRecord?_object_eq_some_iff.mp hc
  exact ⟨_, _, hw.findIn hk hc,
    ho.findIn (hd.blockWithRoots hk.1 roots) (nesting_blockWithRoots hw.nesting_lt), rfl, rfl⟩

def withFile (name text : String) : FileSystem where
  entries := [(.ofNames ["p"], .directory),
    (.ofNames ["p", name], .file (Utf8.encode text.toList))]
  standpoint := { location := [] }

def workspaceText : String :=
  "\x7b\"packages\":[\"a\"],\"universal-resolver\":\x7b\"main\":\"m\"\x7d\x7d"

def ownText : String := "\x7b\"main\":\"m\",\"packages\":[\"a\"]\x7d"

def mainBlock : List (String × Json) := [("main", .string "m")]

theorem workspace_file_stands_for_own_main :
    HasWorkspaceFile (withFile "lerna.json" workspaceText) (.ofString "/p") "lerna.json" ["a"]
      mainBlock ∧
    HasOwnFile (withFile configFile ownText) (.ofString "/p") (blockWithRoots ["a"] mainBlock) ∧
    ∃ p p', findIn (withFile "lerna.json" workspaceText) {} (.ofString "/p") = .ok (some p) ∧
      findIn (withFile configFile ownText) {} (.ofString "/p") = .ok (some p') ∧
      p.root = p'.root ∧ p.config = p'.config := by
  have hw : HasWorkspaceFile (withFile "lerna.json" workspaceText) (.ofString "/p")
      "lerna.json" ["a"] mainBlock := by
    refine ⟨by decide, by cbv, fun other ho hne => ?_, ?_⟩
    · obtain rfl | rfl : other = "lerna.json" ∨ other = "package.json" := by
        simpa [workspaceFiles] using ho
      · exact absurd rfl hne
      · cbv
    · exact ⟨Utf8.encode workspaceText.toList,
        .object [("packages", rootList ["a"]), ("universal-resolver", .object mainBlock)],
        by cbv, ⟨127, [], by cbv, by cbv⟩, by decide, .packages rfl rfl, rfl⟩
  have ho : HasOwnFile (withFile configFile ownText) (.ofString "/p")
      (blockWithRoots ["a"] mainBlock) :=
    ⟨Utf8.encode ownText.toList, [("main", .string "m"), ("packages", rootList ["a"])],
      by cbv, ⟨127, [], by cbv, by cbv⟩, .swap _ _ _⟩
  have hk : DistinctKeys (.object mainBlock) := ⟨by decide, trivial, trivial⟩
  exact ⟨hw, ho, workspace_file_stands_for_own _ _ {} _ _ _ _
    { entry := some "m" } hk rfl hw ho⟩

end Project
end Monorepo
