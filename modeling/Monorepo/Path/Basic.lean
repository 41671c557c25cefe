import Monorepo.Text.Utf8

/-!
Paths as they are written. A path is any bytes, read as characters as far as they are some; what it
names is read off its components, and two paths that differ only in repeated slashes or inner dots
have the same ones.
-/
namespace Monorepo
open Utf8 (Symbol)

@[match_pattern] abbrev slash : Symbol := .char '/'

@[match_pattern] abbrev dot : Symbol := .char '.'

abbrev Segment := List Symbol

structure Path where
  chars : List Symbol
deriving DecidableEq, Inhabited

namespace Path

def ofBytes (bs : List UInt8) : Path := ⟨Utf8.decode bs⟩

def bytes (p : Path) : List UInt8 := Utf8.bytes p.chars

def ofChars (cs : List Char) : Path := ⟨cs.map .char⟩

def ofString (s : String) : Path := ⟨Utf8.ofString s⟩

/-- The path as it is shown, with a replacement character for each fault. -/
def shown (p : Path) : List Char := Utf8.shown p.chars

def text (p : Path) : String := String.ofList p.shown

/-- The path that its text stands for. It is another one if any byte is at fault. -/
def lossy (p : Path) : Path := ofChars p.shown

def text? (p : Path) : Option String := Utf8.text? p.chars

instance : ToString Path := ⟨text⟩

/-- The path of no characters, which stands for the directory one is in. -/
def empty : Path := ⟨[]⟩

def isAbsolute (p : Path) : Bool := p.chars.head? == some slash

def isEmpty (p : Path) : Bool := p.chars.isEmpty

end Path

/-- What stands between the slashes. Without a slash there is one segment. -/
def segments : List Symbol → List Segment
  | [] => [[]]
  | c :: cs =>
    if c = slash then [] :: segments cs
    else match segments cs with
      | [] => [[c]]
      | s :: rest => (c :: s) :: rest

def joinSegments : List Segment → List Symbol
  | [] => []
  | [s] => s
  | s :: rest => s ++ slash :: joinSegments rest

inductive Component where
  | root
  | current
  | parent
  | name (s : Segment)
deriving DecidableEq

namespace Component

def chars : Component → List Symbol
  | root => [slash]
  | current => [dot]
  | parent => [dot, dot]
  | name s => s

/-- What a segment stands for where it is not the first of a relative path. -/
def ofSegment? (s : Segment) : Option Component :=
  if s = [] ∨ s = [dot] then none
  else if s = [dot, dot] then some parent
  else some (name s)

end Component

namespace Path

/-- The components from left to right. A dot counts only as the first segment of a relative path. -/
def components (p : Path) : List Component :=
  let rest := (segments p.chars).filterMap Component.ofSegment?
  if p.isAbsolute then .root :: rest
  else if (segments p.chars).head? = some [dot] then .current :: rest
  else rest

/-- `q` as seen from `p`. An absolute `q` stands for itself, and an empty `q` leaves a slash. -/
def join (p q : Path) : Path :=
  if q.isAbsolute ∨ p.isEmpty then q
  else if p.chars.getLast? = some slash then ⟨p.chars ++ q.chars⟩
  else ⟨p.chars ++ slash :: q.chars⟩

/-- The components written out. A root stands for itself wherever it occurs. -/
def ofComponents (cs : List Component) : Path :=
  cs.foldl (fun p c => p.join ⟨c.chars⟩) empty

def isBlank (s : Segment) : Bool := s = [] ∨ s = [dot]

def trimBlank (ss : List Segment) : List Segment := (ss.reverse.dropWhile isBlank).reverse

/-- The path without its last component, as it is written. The root and the empty path have none. -/
def parent? (p : Path) : Option Path :=
  match segments p.chars with
  | [] => none
  | [] :: rest =>
    match trimBlank rest with
    | [] => none
    | body => match trimBlank body.dropLast with
      | [] => some ⟨[slash]⟩
      | body => some ⟨joinSegments ([] :: body)⟩
  | [dot] :: rest =>
    match trimBlank rest with
    | [] => some empty
    | body => some ⟨joinSegments ([dot] :: trimBlank body.dropLast)⟩
  | ss => some ⟨joinSegments (trimBlank (trimBlank ss).dropLast)⟩

def isWithin (p root : Path) : Bool := root.components.isPrefixOf p.components

/-- Equal up to repeated slashes and inner dots. -/
def denotesSame (p q : Path) : Bool := p.components == q.components

end Path
end Monorepo
