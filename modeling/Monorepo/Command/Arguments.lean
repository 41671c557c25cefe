import Monorepo.Path.Basic
import Monorepo.Settings

/-!
The words of a command line. General options may stand before the command or behind it, and what is
said behind it counts. Paths are taken as they come; all else must be text.
-/
namespace Monorepo.Command

abbrev Word := List Utf8.Symbol

inductive Token where
  | flag (name : String)
  | short (c : Char)
  | option (name : String) (value : Word)
  | word (w : Word)
  /-- A word behind `--`, which is neither an option nor a command. -/
  | operand (w : Word)
  /-- An option that lacks its value or is no text. -/
  | broken

def valued : List String := ["cwd", "config", "mode", "from"]

/-- Whether a word would be read as an option where a value is expected. -/
def looksLikeOption : Word → Bool
  | .char '-' :: _ :: _ => true
  | _ => false

def Token.ofSymbol : Utf8.Symbol → Token
  | .char c => short c
  | .fault _ => broken

/-- The tokens of a command line. A value stands behind an equals sign or in the next word. -/
def tokens : List Word → List Token
  | [] => []
  | [.char '-', .char '-'] :: rest => rest.map .operand
  | (.char '-' :: .char '-' :: cs) :: rest =>
    match Utf8.text? (cs.takeWhile (· ≠ .char '=')), cs.dropWhile (· ≠ .char '=') with
    | none, _ => [.broken]
    | some name, _ :: value => .option name value :: tokens rest
    | some name, [] =>
      if name ∈ valued then
        match rest with
        | [] => [.broken]
        | value :: rest =>
          if looksLikeOption value then [.broken] else .option name value :: tokens rest
      else .flag name :: tokens rest
  | (.char '-' :: c :: cs) :: rest => (c :: cs).map .ofSymbol ++ tokens rest
  | w :: rest => .word w :: tokens rest

structure Options where
  json : Bool := false
  directory : Option Path := none
  config : Option Path := none
  mode : Option Mode := none
  importer : Option Path := none
  absolute : Bool := false

namespace Options

/-- A path that was not given before. No path is empty. -/
def path? (old : Option Path) (value : Word) : Option Path :=
  if old.isSome ∨ value = [] then none else some ⟨value⟩

/-- Takes up an option, if it is one and was not given before. How much is logged is not kept. -/
def add (o : Options) : Token → Option Options
  | .short 'v' => some o
  | .flag "verbose" => some o
  | .flag "json" => if o.json then none else some { o with json := true }
  | .flag "absolute" => if o.absolute then none else some { o with absolute := true }
  | .option "cwd" v => (path? o.directory v).map fun p => { o with directory := some p }
  | .option "config" v => (path? o.config v).map fun p => { o with config := some p }
  | .option "from" v => (path? o.importer v).map fun p => { o with importer := some p }
  | .option "mode" v =>
    if o.mode.isSome then none
    else ((Utf8.text? v).bind Mode.ofString?).map fun m => { o with mode := some m }
  | _ => none

/-- Whether an option is given that only some commands know. -/
def isSpecial (o : Options) : Bool := o.importer.isSome || o.absolute

/-- What was said last: `o` before the command, `later` behind it. -/
def followedBy (o later : Options) : Options where
  json := o.json || later.json
  directory := later.directory <|> o.directory
  config := later.config <|> o.config
  mode := later.mode <|> o.mode
  importer := later.importer
  absolute := later.absolute

end Options

structure Import where
  target : String
  importer : Path
  absolute : Bool

inductive Task where
  | version
  | resolve (i : Import)
  | explain (i : Import)
  | packages

inductive Request where
  | showVersion
  | perform (o : Options) (t : Task)

def readRest (o : Options) (words : List Word) : List Token → Option (Options × List Word)
  | [] => some (o, words)
  | .word w :: rest | .operand w :: rest => readRest o (words ++ [w]) rest
  | t :: rest => (o.add t).bind fun o => readRest o words rest

def task? (command : Word) (o : Options) (words : List Word) : Option Task :=
  let import? := match words, o.importer with
    | [target], some importer =>
      (Utf8.text? target).map fun target => Import.mk target importer o.absolute
    | _, _ => none
  let alone := words = [] ∧ ¬ o.isSpecial
  match Utf8.text? command with
  | some "version" => if alone then some .version else none
  | some "packages" => if alone then some .packages else none
  | some "resolve" => import?.map .resolve
  | some "explain" => import?.map .explain
  | _ => none

def readFront (o : Options) : List Token → Option Request
  | [] => if o.isSpecial then none else some (.perform o .version)
  | .word command :: rest => do
    if o.isSpecial then none
    let (later, words) ← readRest {} [] rest
    let task ← task? command later words
    return .perform (o.followedBy later) task
  | .flag "version" :: _ | .short 'V' :: _ => some .showVersion
  | t :: rest => (o.add t).bind fun o => if o.isSpecial then none else readFront o rest

def parse (args : List Word) : Option Request := readFront {} (tokens args)

end Monorepo.Command
