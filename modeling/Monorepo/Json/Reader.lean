import Monorepo.Json.Scan

/-!
JSON values read from text. Reading goes from left to right and ends at the first flaw; what stands
behind a value is looked at only by whoever asked for the whole text.
-/
namespace Monorepo.Json

def depthLimit : Nat := 127

def checkDepth (care : Care) (depth : Nat) (rest : List Char) : Except Stop Unit :=
  if care = .full ∧ depth = 0 then stopAt .tooDeep rest else .ok ()

def readKey (care : Care) : List Char → Except Stop (List Char × List Char)
  | [] => stopAt .keyNotString []
  | c :: rest => if c = '"' then readString care rest else stopAt .keyNotString (c :: rest)

def readColon (cs : List Char) : Except Stop (List Char) :=
  match skipBlank cs with
  | [] => stopAt .unfinishedObject []
  | c :: rest => if c = ':' then .ok rest else stopAt .expectedColon (c :: rest)

mutual

/-- One value. `depth` brackets may still be opened; `fuel` bounds the steps. -/
def readValue (care : Care) : Nat → Nat → List Char → Except Stop (Json × List Char)
  | 0, _, _ => stopAt .unfinishedValue []
  | fuel + 1, depth, cs =>
    match skipBlank cs with
    | [] => stopAt .unfinishedValue []
    | c :: rest =>
      if c = '[' then do
        checkDepth care depth (c :: rest)
        let (items, rest) ← readItems care fuel (depth - 1) true rest
        return (.array items, rest)
      else if c = '{' then do
        checkDepth care depth (c :: rest)
        let (members, rest) ← readMembers care fuel (depth - 1) true rest
        return (.object members, rest)
      else if c = '"' then do
        let (s, rest) ← readString care rest
        return (.string (String.ofList s), rest)
      else if c = 'n' then return (.null, ← readWord ['u', 'l', 'l'] rest)
      else if c = 't' then return (.bool true, ← readWord ['r', 'u', 'e'] rest)
      else if c = 'f' then return (.bool false, ← readWord ['a', 'l', 's', 'e'] rest)
      else if c = '-' ∨ c.isDigit then do
        let (literal, rest) ← readNumber care (c :: rest)
        return (.number literal, rest)
      else stopAt .expectedValue (c :: rest)

def readItems (care : Care) :
    Nat → Nat → Bool → List Char → Except Stop (List Json × List Char)
  | 0, _, _, _ => stopAt .unfinishedList []
  | fuel + 1, depth, first, cs =>
    match skipBlank cs with
    | [] => stopAt .unfinishedList []
    | c :: rest =>
      if c = ']' then return ([], rest)
      else if first then do
        let (item, rest) ← readValue care fuel depth (c :: rest)
        let (items, rest) ← readItems care fuel depth false rest
        return (item :: items, rest)
      else if c = ',' then
        match skipBlank rest with
        | [] => stopAt .unfinishedValue []
        | c :: rest =>
          if c = ']' then stopAt .trailingComma (c :: rest) else do
          let (item, rest) ← readValue care fuel depth (c :: rest)
          let (items, rest) ← readItems care fuel depth false rest
          return (item :: items, rest)
      else stopAt .expectedCommaInList (c :: rest)

def readMembers (care : Care) :
    Nat → Nat → Bool → List Char → Except Stop (List (String × Json) × List Char)
  | 0, _, _, _ => stopAt .unfinishedObject []
  | fuel + 1, depth, first, cs =>
    match skipBlank cs with
    | [] => stopAt .unfinishedObject []
    | c :: rest =>
      if c = '}' then return ([], rest)
      else if first then readMember care fuel depth (c :: rest)
      else if c = ',' then
        match skipBlank rest with
        | [] => stopAt .unfinishedValue []
        | c :: rest =>
          if c = '}' then stopAt .trailingComma (c :: rest)
          else readMember care fuel depth (c :: rest)
      else stopAt .expectedCommaInObject (c :: rest)

def readMember (care : Care) :
    Nat → Nat → List Char → Except Stop (List (String × Json) × List Char)
  | 0, _, _ => stopAt .unfinishedObject []
  | fuel + 1, depth, cs => do
    let (key, rest) ← readKey care cs
    let rest ← readColon rest
    let (value, rest) ← readValue care fuel depth rest
    let (members, rest) ← readMembers care fuel depth false rest
    return ((String.ofList key, value) :: members, rest)

end

def fuelFor (cs : List Char) : Nat := 3 * cs.length + 3

def readFirst (cs : List Char) : Except Stop (Json × List Char) :=
  readValue .full (fuelFor cs) depthLimit cs

def readEnd (cs : List Char) : Except Stop Unit :=
  match skipBlank cs with
  | [] => .ok ()
  | rest => stopAt .trailingCharacters rest

/-- Line and column of the place that has `left` bytes of the text behind it. -/
def placeOf (text : List Char) (left : Nat) : Nat × Nat :=
  let bytes := Utf8.encode text
  let before := bytes.take (bytes.length - left)
  (before.count 10 + 1, (before.reverse.takeWhile (· ≠ 10)).length)

def Stop.locate (text : List Char) (s : Stop) : Fault := ⟨s.flaw, some (placeOf text s.left)⟩

def locating (text : String) (read : List Char → Except Stop α) : Except Fault α :=
  (read text.toList).mapError (Stop.locate text.toList)

mutual

def withoutRepeats : Json → Json
  | array items => array (withoutRepeatsInItems items)
  | object members => object (lastOfEach (withoutRepeatsInMembers members))
  | v => v

def withoutRepeatsInItems : List Json → List Json
  | [] => []
  | v :: rest => withoutRepeats v :: withoutRepeatsInItems rest

def withoutRepeatsInMembers : List (String × Json) → List (String × Json)
  | [] => []
  | (k, v) :: rest => (k, withoutRepeats v) :: withoutRepeatsInMembers rest

end

/-- The one value that a text holds. Of a repeated key the last member is kept. -/
def parse (text : String) : Except Fault Json :=
  locating text fun cs => do
    let (v, rest) ← readFirst cs
    readEnd rest
    return v.withoutRepeats

end Monorepo.Json
