import Monorepo.Project
import Monorepo.Proofs.Config.BareList
import Monorepo.Proofs.FileSystem.Missing
import Monorepo.Proofs.FileSystem.RealPath
import Monorepo.Proofs.Json.Repeats
import Monorepo.Proofs.Text.Utf8

/-! What is found in one directory, and what is loaded from a file of it. A directory is searched
with every fault of the bytes overlooked; a file that is loaded is refused for them. -/
namespace Monorepo

namespace FileSystem
variable {fs : FileSystem} {p : Path} {bytes : List UInt8}

theorem readText_of_bytes (h : fs.readBytes p = .ok bytes) :
    fs.readText p = (Utf8.decode? bytes).elim (.error .notUtf8) .ok := by
  rw [readText, h]
  dsimp only [bind, Except.bind]
  cases Utf8.decode? bytes <;> rfl

theorem readText_of_error {e : Fault} (h : fs.readBytes p = .error e) :
    fs.readText p = .error e := by
  rw [readText, h]
  rfl

end FileSystem

/-- What keeps a text from being a configuration is found by reading it. -/
theorem Config.ofText_eq_error {path : Path} {text : String} {e : ConfigError}
    (h : ofText path text = .error e) : ∃ fault, e = .parse path fault := by
  obtain h | ⟨⟨v, rest⟩, -, h⟩ := (bind_eq_error_iff _ _ _).mp h
  · obtain ⟨fault, -, rfl⟩ := (mapError_eq_error_iff _ _ _).mp h
    exact ⟨fault, rfl⟩
  · obtain h | ⟨c, -, h⟩ := (bind_eq_error_iff _ _ _).mp h
    · unfold ofValue at h
      cases hv : ofJson? v with
      | some c =>
        rw [hv] at h
        cases h
      | none =>
        rw [hv] at h
        cases h
        exact ⟨_, rfl⟩
    · obtain h | ⟨_, -, h⟩ := (bind_eq_error_iff _ _ _).mp h
      · obtain ⟨fault, -, rfl⟩ := (mapError_eq_error_iff _ _ _).mp h
        exact ⟨fault, rfl⟩
      · cases h

namespace Project
variable {fs : FileSystem} {env : Environment} {dir : Path}

def ownFile (dir : Path) : Path := dir.join (.ofString configFile)

theorem findIn_of_text {text : String} (h : fs.readOptional (ownFile dir) = .ok (some text)) :
    findIn fs env dir =
      (Config.ofText (ownFile dir) text).map fun c => some (settle env (ownFile dir) dir c) := by
  rw [findIn, show fs.readOptional (dir.join (.ofString configFile)) = _ from h]
  change (Config.ofText (ownFile dir) text >>= _) = _
  cases Config.ofText (ownFile dir) text <;> rfl

theorem findIn_of_error {e : FileSystem.Fault} (h : fs.readOptional (ownFile dir) = .error e) :
    findIn fs env dir = .error (.read (ownFile dir) e) := by
  rw [findIn, show fs.readOptional (dir.join (.ofString configFile)) = _ from h]
  rfl

theorem findIn_of_none (h : fs.readOptional (ownFile dir) = .ok none) :
    findIn fs env dir = findInFiles fs env dir workspaceFiles := by
  rw [findIn, show fs.readOptional (dir.join (.ofString configFile)) = _ from h]
  rfl

theorem workspaceItems?_eq (v : Json) :
    workspaceItems? v = ((Json.listUnder? "workspaces" v).or
      ((v.find? "workspaces").bind (Json.listUnder? "packages"))).or
        (Json.listUnder? "packages" v) := by
  have hor (a b : Option (List Json)) : (a <|> b) = a.or b := by cases a <;> rfl
  unfold workspaceItems?
  rw [Json.listUnder?]
  cases v.find? "workspaces" with
  | none => rfl
  | some w => cases w <;> exact hor _ _

def blockConfig (path : Path) (v : Json) : Except ConfigError Config :=
  (v.find? "universal-resolver").elim (.ok {}) (Config.ofValue path)

def withRoots (roots : List String) (c : Config) : Config :=
  if c.packages = [] then { c with packages := roots.map .root } else c

theorem workspaceConfig?_eq (path : Path) (v : Json) :
    workspaceConfig? path v = (workspaceRoots? v).elim (.ok none) fun roots =>
      (blockConfig path v).map fun c => some (withRoots roots c) := by
  unfold workspaceConfig? blockConfig
  cases workspaceRoots? v with
  | none => rfl
  | some roots =>
    have hroots (c : Config) : (if c.packages.isEmpty then
        .ok (some { c with packages := roots.map .root }) else .ok (some c) :
        Except ConfigError (Option Config)) = .ok (some (withRoots roots c)) := by
      unfold withRoots
      cases c.packages <;> rfl
    cases v.find? "universal-resolver" with
    | none => exact hroots {}
    | some block =>
      change (Config.ofValue path block >>= _) = (Config.ofValue path block).map _
      cases Config.ofValue path block with
      | error e => rfl
      | ok c => exact hroots c

/-- What is done with the text of a workspace file. -/
theorem findInFiles_of_text {name : String} {names : List String} {text : String}
    (h : fs.readOptional (dir.join (.ofString name)) = .ok (some text)) :
    findInFiles fs env dir (name :: names) =
      (Json.parse text).mapError (.parse (dir.join (.ofString name))) >>= fun v =>
        workspaceConfig? (dir.join (.ofString name)) v >>= fun
          | none => findInFiles fs env dir names
          | some c => .ok (some (settle env (dir.join (.ofString name)) dir c)) := by
  rw [findInFiles, h]
  change ((Json.parse text).mapError _ >>= _) = _
  refine congrArg (_ >>= ·) (funext fun v => congrArg (_ >>= ·) (funext fun c? => ?_))
  cases c? <;> rfl

theorem findInFiles_of_error {name : String} {names : List String} {e : FileSystem.Fault}
    (h : fs.readOptional (dir.join (.ofString name)) = .error e) :
    findInFiles fs env dir (name :: names) = .error (.read (dir.join (.ofString name)) e) := by
  rw [findInFiles, h]
  rfl

theorem findInFiles_of_none {name : String} {names : List String}
    (h : fs.readOptional (dir.join (.ofString name)) = .ok none) :
    findInFiles fs env dir (name :: names) = findInFiles fs env dir names := by
  rw [findInFiles, h]
  rfl

theorem load_of_absolute {path : Path} (h : absolute fs path = .ok path) :
    load fs env path = (fs.readText path).mapError (.read path) >>= fun text =>
      (Config.ofText path text).map (settle env path (path.parent?.getD path)) := by
  rw [load, h]
  change ((fs.readText path).mapError _ >>= _) = _
  refine congrArg (_ >>= ·) (funext fun text => ?_)
  cases Config.ofText path text <;> rfl

def filesIn (dir : Path) : List Path :=
  (configFile :: workspaceFiles).map fun name => dir.join (.ofString name)

theorem isName_of_mem_files (name : String) (h : name ∈ configFile :: workspaceFiles) :
    Component.IsName (Utf8.ofString name) := by
  revert name
  decide

/-- A file of a directory without detours has a path without detours. -/
theorem placed_of_mem_filesIn {path : Path} (ha : dir.isAbsolute = true) (hn : dir.normalize = dir)
    (h : path ∈ filesIn dir) :
    path.isAbsolute = true ∧ path.normalize = path ∧ path.parent? = some dir := by
  obtain ⟨name, hmem, rfl⟩ := List.mem_map.mp h
  have hname := isName_of_mem_files name hmem
  obtain ⟨l, hl, rfl⟩ := FileSystem.exists_eq_path dir ha hn
  have hall : ∀ s ∈ l ++ [Utf8.ofString name], Component.IsName s := by
    intro s hs
    obtain hs | hs := List.mem_append.mp hs
    · exact hl s hs
    · rwa [List.mem_singleton.mp hs]
  rw [show (Location.path l).join (.ofString name) = Location.path (l ++ [Utf8.ofString name]) from
    FileSystem.path_join_name l _ hl hname]
  exact ⟨rfl, FileSystem.normalize_path _ hall, FileSystem.parent?_path_append l _ hall⟩

theorem absolute_of_isAbsolute (fs : FileSystem) {path : Path} (ha : path.isAbsolute = true) :
    absolute fs path = .ok path.normalize :=
  if_pos ha

theorem absolute_ownFile (fs : FileSystem) (ha : dir.isAbsolute = true)
    (hn : dir.normalize = dir) :
    absolute fs (ownFile dir) = .ok (ownFile dir) ∧ (ownFile dir).parent? = some dir := by
  have hmem : ownFile dir ∈ filesIn dir := List.mem_cons_self
  obtain ⟨hpa, hpn, hparent⟩ := placed_of_mem_filesIn ha hn hmem
  exact ⟨by rw [absolute_of_isAbsolute fs hpa, hpn], hparent⟩

theorem load_ownFile (ha : dir.isAbsolute = true) (hn : dir.normalize = dir) :
    load fs env (ownFile dir) = (fs.readText (ownFile dir)).mapError (.read (ownFile dir)) >>=
      fun text => (Config.ofText (ownFile dir) text).map (settle env (ownFile dir) dir) := by
  obtain ⟨habsolute, hparent⟩ := absolute_ownFile fs ha hn
  rw [load_of_absolute habsolute, hparent]
  rfl

theorem load_of_garbled {bytes : List UInt8} (ha : dir.isAbsolute = true)
    (hn : dir.normalize = dir) (hb : fs.readBytes (ownFile dir) = .ok bytes)
    (hd : Utf8.decode? bytes = none) :
    load fs env (ownFile dir) = .error (.read (ownFile dir) .notUtf8) := by
  rw [load_ownFile ha hn, FileSystem.readText_of_bytes hb, hd]
  rfl

theorem findIn_of_bytes {bytes : List UInt8} (hb : fs.readBytes (ownFile dir) = .ok bytes) :
    findIn fs env dir = (Config.ofText (ownFile dir) (Utf8.decodeLossy bytes)).map fun c =>
      some (settle env (ownFile dir) dir c) :=
  findIn_of_text (FileSystem.readOptional_of_bytes hb)

theorem findIn_eq_load_of_decode? {bytes : List UInt8} {text : String}
    (ha : dir.isAbsolute = true) (hn : dir.normalize = dir)
    (hb : fs.readBytes (ownFile dir) = .ok bytes) (hd : Utf8.decode? bytes = some text) :
    findIn fs env dir = (load fs env (ownFile dir)).map some := by
  rw [findIn_of_bytes hb, load_ownFile ha hn, FileSystem.readText_of_bytes hb, hd,
    Utf8.decodeLossy_of_decode? hd]
  change _ = Except.map some ((Config.ofText (ownFile dir) text).map _)
  cases Config.ofText (ownFile dir) text <;> rfl

theorem findIn_eq_load_of_error {e : FileSystem.Fault} (ha : dir.isAbsolute = true)
    (hn : dir.normalize = dir) (hr : fs.readBytes (ownFile dir) = .error e) (he : e ≠ .notFound) :
    findIn fs env dir = (load fs env (ownFile dir)).map some := by
  rw [findIn_of_error (FileSystem.readOptional_of_error hr he), load_ownFile ha hn,
    FileSystem.readText_of_error hr]
  rfl

/-- Where a directory has a file of its own, the directory and the file give the same configuration
or the same error just if no byte of the file is at fault. Otherwise the file alone is refused. -/
theorem findIn_eq_load_iff (fs : FileSystem) (env : Environment) (dir : Path)
    (ha : dir.isAbsolute = true) (hn : dir.normalize = dir)
    (hfile : fs.readBytes (ownFile dir) ≠ .error .notFound) :
    (findIn fs env dir = (load fs env (ownFile dir)).map some ↔
      ∀ bytes, fs.readBytes (ownFile dir) = .ok bytes → (Utf8.decode? bytes).isSome = true) ∧
    ∀ bytes, fs.readBytes (ownFile dir) = .ok bytes → Utf8.decode? bytes = none →
      load fs env (ownFile dir) = .error (.read (ownFile dir) .notUtf8) ∧
      findIn fs env dir = (Config.ofText (ownFile dir) (Utf8.decodeLossy bytes)).map fun c =>
        some (settle env (ownFile dir) dir c) := by
  refine ⟨⟨?_, ?_⟩, fun bytes hb hd => ⟨load_of_garbled ha hn hb hd, findIn_of_bytes hb⟩⟩
  · intro h bytes hb
    by_contra hnone
    rw [Option.not_isSome_iff_eq_none] at hnone
    rw [load_of_garbled ha hn hb hnone, findIn_of_bytes hb] at h
    -- a text may be no configuration, but it is not a fault of the disk
    obtain ⟨fault, hf⟩ := Config.ofText_eq_error ((map_eq_error_iff _ _ _).mp h)
    cases hf
  · intro h
    cases hr : fs.readBytes (ownFile dir) with
    | error e =>
      refine findIn_eq_load_of_error ha hn hr ?_
      rintro rfl
      exact hfile hr
    | ok bytes =>
      obtain ⟨text, hd⟩ := Option.isSome_iff_exists.mp (h bytes hr)
      exact findIn_eq_load_of_decode? ha hn hr hd

def holding (bytes : List UInt8) : FileSystem where
  entries := [(.ofNames ["p"], .directory), (.ofNames ["p", configFile], .file bytes)]
  standpoint := { location := [] }

/-- A list of one package, whose root is a byte that begins no character. -/
def strayByte : List UInt8 := [0x5b, 0x22, 0xff, 0x22, 0x5d]

theorem findIn_eq_load_holding :
    findIn (holding (Utf8.encode "[\"a\"]".toList)) {} (.ofString "/p") =
      (load (holding (Utf8.encode "[\"a\"]".toList)) {} (ownFile (.ofString "/p"))).map some ∧
    load (holding strayByte) {} (ownFile (.ofString "/p")) =
      .error (.read (ownFile (.ofString "/p")) .notUtf8) := by
  have hread : (holding (Utf8.encode "[\"a\"]".toList)).readBytes (ownFile (.ofString "/p")) =
      .ok (Utf8.encode "[\"a\"]".toList) := by cbv
  have hstray : (holding strayByte).readBytes (ownFile (.ofString "/p")) = .ok strayByte := by cbv
  constructor
  · refine (findIn_eq_load_iff _ _ _ rfl (by cbv) (by rw [hread]; simp)).1.mpr ?_
    rintro bytes hb
    obtain rfl := Except.ok.inj (hread.symm.trans hb)
    cbv
  · exact ((findIn_eq_load_iff _ _ _ rfl (by cbv) (by rw [hstray]; simp)).2 _ hstray
      (by cbv)).1

/-- The directory gives a configuration, and the file none. -/
theorem stray_byte_found_not_loaded :
    findIn (holding strayByte) {} (.ofString "/p") =
      .ok (some (settle {} (.ofString "/p/universal-resolver.json") (.ofString "/p")
        { packages := [.root "\uFFFD"] })) ∧
    load (holding strayByte) {} (.ofString "/p/universal-resolver.json") =
      .error (.read (.ofString "/p/universal-resolver.json") .notUtf8) := by
  constructor <;> cbv

end Project
end Monorepo
