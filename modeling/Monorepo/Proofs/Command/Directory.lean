import Monorepo.Command.Run
import Monorepo.Proofs.Command.Arguments
import Monorepo.Proofs.Project.Standpoint

/-! Commands for another directory. To name a directory is to go there first, as far as the
environment names its places by paths from the root; any other file counts from where one stands. -/
namespace Monorepo.Command
open FileSystem
variable {fs : FileSystem} {s : Standpoint} {vars : List (String × Word)} {o : Options} {d : Path}

theorem directory_inDirectory (fs : FileSystem) (o : Options) (ha : d.isAbsolute = true) :
    directory fs (o.inDirectory d) = d := by
  unfold directory
  cases fs.currentDirectory with
  | error e => rfl
  | ok here => exact Path.join_of_isAbsolute here d ha

theorem directory_of_none (hd : fs.currentDirectory = .ok d) (ho : o.directory = none) :
    directory fs o = d := by
  rw [directory, hd, ho]

theorem isAnchored_environment (ha : d.isAbsolute = true)
    (h : o.config = none → (Environment.ofVariables vars).IsAnchored) :
    (environment d vars o).IsAnchored := by
  unfold environment
  cases hc : o.config with
  | none => exact ⟨(h hc).root, (h hc).config⟩
  | some config =>
    refine ⟨nofun, fun p hp => ?_⟩
    cases hp
    exact Path.isAbsolute_join d config ha

def standing (fs : FileSystem) (s : Standpoint) (x : Project × Resolver) : Project × Resolver :=
  (x.1, { x.2 with probe := .ofFileSystem (fs.standingAt s) })

theorem projectOf_standingAt (henv : (environment d vars o).IsAnchored) (ha : d.isAbsolute = true)
    (hd : directory (fs.standingAt s) o = d) :
    projectOf (fs.standingAt s) vars o =
      (projectOf fs vars (o.inDirectory d)).map (standing fs s) := by
  have henvironment : environment d vars (o.inDirectory d) = environment d vars o := rfl
  rw [projectOf, projectOf]
  dsimp only
  rw [hd, directory_inDirectory fs o ha, henvironment, Project.find_standingAt henv ha]
  cases hfind : Project.find fs (environment d vars o) d with
  | error e => rfl
  | ok p =>
    have hread := Project.isRead_of_find hfind
    have hroot := Project.isAbsolute_root_of_find henv.root hfind
    change Except.mapError ofConfigError (p.resolver (fs.standingAt s) >>= _) =
      Except.map _ (Except.mapError ofConfigError (p.resolver fs >>= _))
    rw [Project.resolver_standingAt hread.config_root hroot]
    cases p.resolver fs <;> rfl

section
variable {x : Project × Resolver} {origin : Path}

theorem isAbsolute_of_projectOf (h : projectOf fs vars o = .ok x) :
    (∀ q ∈ x.2.packages, q.root.isAbsolute = true) ∧ x.2.probe = .ofFileSystem fs := by
  obtain ⟨project, hfind, h⟩ := (bind_eq_ok_iff _ _ _).mp ((mapError_eq_ok_iff _ _ _).mp h)
  obtain ⟨resolver, hresolver, h⟩ := (bind_eq_ok_iff _ _ _).mp h
  cases h
  refine ⟨fun q hq => ?_, ?_⟩
  · exact (Project.isSound_of_mem_resolver (Project.isSettled_find hfind) hresolver q hq).isAbsolute
  · obtain ⟨_, _, -, -, rfl⟩ := Project.resolver_eq_ok hresolver
    rfl

theorem run_standing (h : projectOf fs vars o = .ok x) (ho : origin.isAbsolute = true)
    (log : Recorder) (target : String) (relative : Bool) :
    (standing fs s x).2.run log target origin relative = x.2.run log target origin relative := by
  obtain ⟨hroots, hprobe⟩ := isAbsolute_of_projectOf h
  have hagrees : (Probe.ofFileSystem (fs.standingAt s)).Agrees x.2.probe :=
    hprobe ▸ Probe.agrees_standingAt fs s
  exact Resolver.run_probe hagrees hroots ho relative

theorem resolve_standing (h : projectOf fs vars o = .ok x) (ho : origin.isAbsolute = true)
    (target : String) (relative : Bool) :
    (standing fs s x).2.resolve target origin relative = x.2.resolve target origin relative :=
  congrArg (Except.map Resolution.resolved) (run_standing h ho .off target relative)

end

/-- What a command does for a directory it does in that directory. -/
theorem perform_standingAt (henv : (environment d vars o).IsAnchored) (ha : d.isAbsolute = true)
    (hd : directory (fs.standingAt s) o = d) (task : Task) :
    perform (fs.standingAt s) vars o task = perform fs vars (o.inDirectory d) task := by
  have hproject := projectOf_standingAt henv ha hd
  have hthere := directory_inDirectory fs o ha
  cases task with
  | version => rfl
  | packages =>
    unfold perform
    rw [hproject]
    cases projectOf fs vars (o.inDirectory d) <;> rfl
  | resolve i =>
    have ho := Path.isAbsolute_join d i.importer ha
    unfold perform
    rw [hproject, hd, hthere]
    cases h : projectOf fs vars (o.inDirectory d) with
    | error e => rfl
    | ok x =>
      change (((standing fs s x).2.resolve _ _ _).mapError ofResolveError >>= _) = _
      rw [resolve_standing h ho]
      rfl
  | explain i =>
    have ho := Path.isAbsolute_join d i.importer ha
    unfold perform
    rw [hproject, hd, hthere]
    cases h : projectOf fs vars (o.inDirectory d) with
    | error e => rfl
    | ok x =>
      change (((standing fs s x).2.run .on _ _ _).mapError ofResolveError >>= _) = _
      rw [run_standing h ho]
      rfl

def naming (file : Path) (vars : List (String × Word)) : List (String × Word) :=
  ("UNIVERSAL_RESOLVER_CONFIG", file.chars) :: vars

theorem ofVariables_naming {file : Path} (ha : file.isAbsolute = true) (ht : file.IsText) :
    Environment.ofVariables (naming file vars) =
      { Environment.ofVariables vars with config := some file } := by
  have hshown : file.shown ≠ [] := mt List.map_eq_nil_iff.mp (chars_ne_nil ha)
  have htext : file.text ≠ "" := fun h => hshown (String.ofList_eq_empty_iff.mp h)
  have hfilled : filled? (Utf8.text? file.chars) = some file.text := by
    rw [← Path.text?, Path.isText_iff.mp ht, filled?_some htext]
  have hfile : Path.ofString file.text = file := (Path.ofString_text file).trans ht
  simp [Environment.ofVariables, naming, List.lookup_cons, hfilled, hfile]

/-- A file that the environment names has a text, and so has its path from a directory with one. -/
theorem isText_join_config {here file : Path} (hhere : here.IsText)
    (hfile : (Environment.ofVariables vars).config = some file) : (here.join file).IsText := by
  obtain ⟨text, -, rfl⟩ := Option.map_eq_some_iff.mp hfile
  rw [Path.IsText, Path.lossy_join, hhere]
  exact congrArg here.join (Path.isText_ofChars _)

theorem projectOf_naming {here file : Path} (hhere : fs.currentDirectory = .ok here)
    (ht : here.IsText) (hfile : (Environment.ofVariables vars).config = some file) :
    projectOf fs (naming (here.join file) vars) o = projectOf fs vars o := by
  have hfind (dir : Path) : Project.find fs (environment dir (naming (here.join file) vars) o) dir =
      Project.find fs (environment dir vars o) dir := by
    have hnaming : Environment.ofVariables (naming (here.join file) vars) =
        { Environment.ofVariables vars with config := some (here.join file) } :=
      ofVariables_naming
        (Path.isAbsolute_join here file (Project.isAbsolute_of_currentDirectory hhere))
        (isText_join_config ht hfile)
    cases hc : o.config with
    | none =>
      have hconfig : (environment dir vars o).config = some file := by
        rw [environment, hc]
        exact hfile
      rw [← Project.find_from_here hhere hconfig, environment, environment, hc, hnaming]
    | some config => rw [environment, environment, hc, hnaming]
  rw [projectOf, projectOf]
  dsimp only
  rw [hfind]

theorem perform_naming {here file : Path} (hhere : fs.currentDirectory = .ok here)
    (ht : here.IsText) (hfile : (Environment.ofVariables vars).config = some file) (task : Task) :
    perform fs (naming (here.join file) vars) o task = perform fs vars o task := by
  cases task <;> simp only [perform, projectOf_naming hhere ht hfile]

theorem run_of_parse {fs' : FileSystem} {vars' : List (String × Word)}
    {args args' : List Word}
    (hparse : parse args' = (parse args).map (·.inDirectory d))
    (hperform : ∀ o task, parse args = some (.perform o task) →
      perform fs' vars' o task = perform fs vars (o.inDirectory d) task) :
    run fs vars args' = run fs' vars' args := by
  rw [run, run, hparse]
  cases h : parse args with
  | none => rfl
  | some request =>
    cases request with
    | showVersion => rfl
    | perform o task =>
      dsimp only
      rw [hperform o task h]
      rfl

/-- To name a directory by a path without links is to run the command there, wherever one stands, if
the environment names its places by paths from the root, or they do not count because a file is
given. A file that the environment names by another path counts from where one stands, and an
environment can name it from the root if that place has a text. -/
theorem run_directory {front back option : List Word} {there : FileSystem}
    (ha : d.isAbsolute = true) (hn : d.normalize = d) (hu : fs.IsUnlinked d)
    (hthere : fs.changeDirectory d = .ok there) (hfront : IsComplete front)
    (hoption : option ∈ directoryWords d) (hnone : LeavesDirectory (tokens (front ++ back))) :
    ((∀ o task, parse (front ++ back) = some (.perform o task) → o.config = none →
        (Environment.ofVariables vars).IsAnchored) →
      run fs vars (front ++ (option ++ back)) = run there vars (front ++ back)) ∧
    ∀ here file, fs.currentDirectory = .ok here → here.IsText →
      (Environment.ofVariables vars).config = some file →
      (∀ p, (Environment.ofVariables vars).root = some p → p.isAbsolute = true) →
      run fs vars (front ++ (option ++ back)) =
        run there (naming (here.join file) vars) (front ++ back) := by
  have hparse := parse_insert ha hfront hoption hnone
  obtain ⟨hstanding, hcurrent⟩ := changeDirectory_unlinked ha hn hu hthere
  have hd {o : Options} {task : Task} (ho : parse (front ++ back) = some (.perform o task)) :
      directory (fs.standingAt { location := d.place }) o = d :=
    directory_of_none (hstanding ▸ hcurrent) (directory_of_parse hnone ho)
  subst hstanding
  constructor
  · intro henv
    refine run_of_parse hparse fun o task ho => ?_
    exact perform_standingAt (isAnchored_environment ha (henv o task ho)) ha (hd ho) task
  · intro here file hhere htext hfile hroot
    refine run_of_parse hparse fun o task ho => ?_
    have hjoin := Path.isAbsolute_join here file (Project.isAbsolute_of_currentDirectory hhere)
    have henv : (Environment.ofVariables (naming (here.join file) vars)).IsAnchored := by
      rw [ofVariables_naming hjoin (isText_join_config htext hfile)]
      refine ⟨hroot, fun p hp => ?_⟩
      cases hp
      exact hjoin
    rw [perform_standingAt (isAnchored_environment ha fun _ => henv) ha (hd ho) task,
      perform_naming hhere htext hfile]

def twoPlaces : FileSystem where
  entries := [(.ofNames ["c"], .directory), (.ofNames ["d"], .directory),
    (.ofNames ["d", "conf.json"], .file (Utf8.encode "[\"a\"]".toList))]
  standpoint := { location := .ofNames ["c"] }

def otherPlace : FileSystem := twoPlaces.standingAt { location := .ofNames ["d"] }

theorem changeDirectory_twoPlaces :
    twoPlaces.changeDirectory (.ofString "/d") = .ok otherPlace := by cbv

theorem isUnlinked_twoPlaces : twoPlaces.IsUnlinked (.ofString "/d") := by
  intro l hl target
  have hplace : (Path.ofString "/d").place = Location.ofNames ["d"] := by decide
  rw [hplace] at hl
  obtain rfl | ⟨rest, rfl, hrest⟩ := List.prefix_cons_iff.mp hl
  · exact nofun
  · rw [List.prefix_nil.mp hrest]
    exact nofun

def namingConfig (file : String) : List (String × Word) :=
  [("UNIVERSAL_RESOLVER_CONFIG", Utf8.ofString file)]

def words (args : List String) : List Word := args.map Utf8.ofString

theorem run_directory_twoPlaces :
    run twoPlaces (namingConfig "/d/conf.json") (words ["--json", "--cwd", "/d", "packages"]) =
      run otherPlace (namingConfig "/d/conf.json") (words ["--json", "packages"]) ∧
    run twoPlaces (namingConfig "../d/conf.json") (words ["--json", "--cwd", "/d", "packages"]) =
      run otherPlace (naming (.ofString "/c/../d/conf.json") (namingConfig "../d/conf.json"))
        (words ["--json", "packages"]) := by
  have hfront : IsComplete (words ["--json"]) :=
    isComplete_singleton (t := .flag "json") fun back => by
      rw [tokens.eq_def]
      rfl
  have hoption : words ["--cwd", "/d"] ∈ directoryWords (.ofString "/d") := by
    simp [directoryWords, words, Path.ofString]
  have htokens : tokens (words ["--json"] ++ words ["packages"]) =
      [.flag "json", .word (Utf8.ofString "packages")] := rfl
  have hnone : LeavesDirectory (tokens (words ["--json"] ++ words ["packages"])) := by
    rw [htokens]
    rintro t ht ⟨v, rfl⟩
    simp at ht
  have hall (vars : List (String × Word)) := @run_directory twoPlaces vars (.ofString "/d")
    (words ["--json"]) (words ["packages"]) (words ["--cwd", "/d"]) otherPlace rfl (by decide)
    isUnlinked_twoPlaces changeDirectory_twoPlaces hfront hoption hnone
  refine ⟨(hall _).1 fun o task _ _ => ⟨fun p hp => ?_, fun p hp => ?_⟩,
    (hall _).2 (.ofString "/c") (.ofString "../d/conf.json") rfl rfl rfl fun p hp => ?_⟩
  · cases hp
  · cases hp
    rfl
  · cases hp

def placedProject : Project :=
  .settle {} (.ofString "/d/conf.json") (.ofString "/d") { packages := [.root "a"] }

def placedResolver : Resolver where
  settings := { output := some "dist" }
  packages := [⟨none, .ofString "/d/a", "src", some "dist", "src", "~"⟩]
  probe := .ofFileSystem otherPlace

/-- A file that the environment names without a root is looked for where one stood before. -/
theorem named_file_moves :
    (run twoPlaces (namingConfig "conf.json")
      (words ["--json", "--cwd", "/d", "packages"])).status = 1 ∧
    (run otherPlace (namingConfig "conf.json")
      (words ["--json", "packages"])).status = 0 := by
  constructor
  · have hfind : Project.find twoPlaces { config := some (.ofString "conf.json") }
        (.ofString "/d") = .error (.read (.ofString "/c/conf.json") .notFound) := by cbv
    have hproject : projectOf twoPlaces (namingConfig "conf.json")
        { json := true, directory := some (.ofString "/d") } =
          .error (ofConfigError (.read (.ofString "/c/conf.json") .notFound)) := by
      change Except.mapError ofConfigError (Project.find twoPlaces
        { config := some (.ofString "conf.json") } (.ofString "/d") >>= _) = _
      rw [hfind]
      rfl
    have hparse : parse (words ["--json", "--cwd", "/d", "packages"]) =
        some (.perform { json := true, directory := some (.ofString "/d") } .packages) := rfl
    rw [run, hparse]
    dsimp only [perform]
    rw [hproject]
    rfl
  · have hfind : Project.find otherPlace { config := some (.ofString "conf.json") }
        (.ofString "/d") = .ok placedProject := by cbv
    have hresolver : placedProject.resolver otherPlace = .ok placedResolver := by cbv
    have hproject : projectOf otherPlace (namingConfig "conf.json")
        { json := true } = .ok (placedProject, placedResolver) := by
      change Except.mapError ofConfigError (Project.find otherPlace
        { config := some (.ofString "conf.json") } (.ofString "/d") >>= _) = _
      rw [hfind]
      change Except.mapError ofConfigError (placedProject.resolver otherPlace >>= _) = _
      rw [hresolver]
      rfl
    have hparse : parse (words ["--json", "packages"]) =
        some (.perform { json := true } .packages) := rfl
    rw [run, hparse]
    dsimp only [perform]
    rw [hproject]
    rfl

end Monorepo.Command
