import Monorepo.Json.Reader

/-!
Records read from text for certain fields only. A field of the wrong kind is refused as soon as it
is met, before what comes behind it is read, and the values of all other keys are skimmed.
-/
namespace Monorepo.Json

structure Field where
  key : String
  read : List Char → Except Stop (Json × List Char)

/-- Refuses the value that comes next. A value without brackets is read to its end before that. -/
def readRefused (cs : List Char) : Except Stop α :=
  match skipBlank cs with
  | [] => stopAt .unfinishedValue []
  | c :: rest =>
    if c = '[' ∨ c = '{' then stopBefore .wrongShape (c :: rest)
    else do
      let (_, rest) ← readValue .full 1 depthLimit (c :: rest)
      stopBefore .wrongShape rest

def readText (cs : List Char) : Except Stop (Json × List Char) :=
  match skipBlank cs with
  | '"' :: rest => do
    let (s, rest) ← readString .full rest
    return (.string (String.ofList s), rest)
  | cs => readRefused cs

def readNullable (read : List Char → Except Stop (Json × List Char)) (cs : List Char) :
    Except Stop (Json × List Char) :=
  match skipBlank cs with
  | 'n' :: rest => return (.null, ← readWord ['u', 'l', 'l'] rest)
  | cs => read cs

def readListEnd (cs : List Char) : Except Stop (List Char) :=
  match skipBlank cs with
  | [] => stopAt .unfinishedList []
  | c :: rest =>
    if c = ']' then .ok rest
    else if c = ',' then
      match skipBlank rest with
      | ']' :: rest => stopAt .trailingComma (']' :: rest)
      | rest => stopAt .trailingCharacters rest
    else stopAt .trailingCharacters (c :: rest)

def readFieldItems : List Field → Bool → List Char → Except Stop (List (String × Json) × List Char)
  | [], _, cs => return ([], ← readListEnd cs)
  | f :: fields, first, cs =>
    match skipBlank cs with
    | [] => stopAt .unfinishedList []
    | c :: rest =>
      if c = ']' then return ([], rest)
      else if first then do
        let (v, rest) ← f.read (c :: rest)
        let (members, rest) ← readFieldItems fields false rest
        return ((f.key, v) :: members, rest)
      else if c = ',' then
        match skipBlank rest with
        | [] => stopAt .unfinishedValue []
        | c :: rest =>
          if c = ']' then stopAt .trailingComma (c :: rest) else do
          let (v, rest) ← f.read (c :: rest)
          let (members, rest) ← readFieldItems fields false rest
          return ((f.key, v) :: members, rest)
      else stopAt .expectedCommaInList (c :: rest)

/-- One member of an object and those behind it, of which only the wanted ones are kept. `seen` are
the wanted keys met so far. -/
def readFieldMembers (fields : List Field) :
    Nat → List String → Bool → List Char → Except Stop (List (String × Json) × List Char)
  | 0, _, _, _ => stopAt .unfinishedObject []
  | fuel + 1, seen, first, cs =>
    match skipBlank cs with
    | [] => stopAt .unfinishedObject []
    | c :: rest => do
      if c = '}' then return ([], rest)
      let start ← if first then pure (c :: rest)
        else if c = ',' then
          match skipBlank rest with
          | [] => stopAt .unfinishedValue []
          | c :: rest => if c = '}' then stopAt .trailingComma (c :: rest) else pure (c :: rest)
        else stopAt .expectedCommaInObject (c :: rest)
      let (key, rest) ← readKey .full start
      let key := String.ofList key
      match fields.find? (·.key == key) with
      | none =>
        let rest ← readColon rest
        let (_, rest) ← readValue .skim (fuelFor rest) 0 rest
        readFieldMembers fields fuel seen false rest
      | some f =>
        if key ∈ seen then stopBefore .wrongShape rest
        let rest ← readColon rest
        let (v, rest) ← f.read rest
        let (members, rest) ← readFieldMembers fields fuel (key :: seen) false rest
        return ((key, v) :: members, rest)

def readRecord (fields : List Field) (cs : List Char) : Except Stop (Json × List Char) :=
  match skipBlank cs with
  | '[' :: rest => do
    let (members, rest) ← readFieldItems fields true rest
    return (.object members, rest)
  | '{' :: rest => do
    let (members, rest) ← readFieldMembers fields (rest.length + 1) [] true rest
    return (.object members, rest)
  | cs => readRefused cs

end Monorepo.Json
