import Monorepo.Path.Basic

/-!
Patterns for names. `?` stands for one character, `*` for any run of them, brackets for one out of a
set, and `**` as a whole component for any number of directories.
-/
namespace Monorepo.Glob

def hasMagic (s : String) : Bool := s.toList.any fun c => c = '*' || c = '?' || c = '['

/-- A set of characters by ranges, first and last included. -/
abbrev CharSet := List (Char × Char)

inductive Token where
  | char (c : Char)
  | one
  | run
  | tree
  | within (set : CharSet)
  | outside (set : CharSet)
deriving DecidableEq

inductive Flaw where
  | tooManyStars
  | treeNotAlone
  | invalidRange
deriving DecidableEq

def Flaw.message : Flaw → String
  | tooManyStars => "wildcards are either regular `*` or recursive `**`"
  | treeNotAlone => "recursive wildcards must form a single path component"
  | invalidRange => "invalid range pattern"

structure PatternFault where
  position : Nat
  flaw : Flaw
deriving DecidableEq

def PatternFault.message (f : PatternFault) : String :=
  s!"Pattern syntax error near position {f.position}: {f.flaw.message}"

def readSet : List Char → CharSet
  | a :: '-' :: b :: rest => (a, b) :: readSet rest
  | a :: rest => (a, a) :: readSet rest
  | [] => []

/-- The set that follows an opening bracket, and what is behind its closing one. A bracket right at
the start of the set belongs to it. -/
def readBrackets? : List Char → Option (Token × List Char)
  | '!' :: c :: rest =>
    if ']' ∈ rest then
      some (.outside (readSet (c :: rest.takeWhile (· ≠ ']'))), (rest.dropWhile (· ≠ ']')).drop 1)
    else none
  | '!' :: [] => none
  | c :: rest =>
    if ']' ∈ rest then
      some (.within (readSet (c :: rest.takeWhile (· ≠ ']'))), (rest.dropWhile (· ≠ ']')).drop 1)
    else none
  | [] => none

/-- The token that begins a pattern, and how many characters it takes. `position` characters stand
before it, and `fresh` says that it begins a component. -/
def readToken (position : Nat) (fresh : Bool) : List Char → Except PatternFault (Token × Nat)
  | [] => .ok (.one, 0)
  | '?' :: _ => .ok (.one, 1)
  | '*' :: '*' :: '*' :: _ => .error ⟨position + 2, .tooManyStars⟩
  | '*' :: '*' :: rest =>
    if ¬ fresh then .error ⟨position - 1, .treeNotAlone⟩
    else match rest with
      | [] => .ok (.tree, 2)
      | c :: _ => if c = '/' then .ok (.tree, 3) else .error ⟨position + 2, .treeNotAlone⟩
  | '*' :: _ => .ok (.run, 1)
  | '[' :: rest =>
    match readBrackets? rest with
    | some (t, left) => .ok (t, 1 + (rest.length - left.length))
    | none => .error ⟨position, .invalidRange⟩
  | c :: _ => .ok (.char c, 1)

def readTokens (position : Nat) (fresh : Bool) (cs : List Char) :
    Except PatternFault (List Token) :=
  match cs with
  | [] => .ok []
  | c :: rest => do
    let (t, n) ← readToken position fresh (c :: rest)
    let n := max n 1
    let fresh := (c :: rest)[n - 1]? = some '/'
    return t :: (← readTokens (position + n) fresh ((c :: rest).drop n))
termination_by cs.length
decreasing_by simp only [List.length_drop, List.length_cons]; omega

def parse (cs : List Char) : Except PatternFault (List Token) := readTokens 0 true cs

def quote (cs : List Char) : List Char :=
  cs.flatMap fun c =>
    if c = '?' ∨ c = '*' ∨ c = '[' ∨ c = ']' then ['[', c, ']'] else [c]

def CharSet.has (set : CharSet) (c : Char) : Bool := set.any fun r => r.1 ≤ c && c ≤ r.2

def Token.accepts (c : Char) : Token → Bool
  | char d => c = d
  | one => true
  | within set => set.has c
  | outside set => !set.has c
  | run | tree => false

def fits : List Token → List Char → Bool
  | [], cs => cs.isEmpty
  | .run :: ts, [] => fits ts []
  | .run :: ts, c :: cs => fits ts (c :: cs) || fits (.run :: ts) cs
  | _ :: _, [] => false
  | t :: ts, c :: cs => t.accepts c && fits ts cs
termination_by ts cs => ts.length + cs.length

inductive Piece where
  /-- Any number of directories. -/
  | tree
  /-- This name and no other. -/
  | literal (cs : List Char)
  | wild (ts : List Token)
deriving DecidableEq

def spelled? : List Token → Option (List Char)
  | [] => some []
  | .char c :: ts => (spelled? ts).map (c :: ·)
  | _ :: _ => none

def Piece.ofTokens (ts : List Token) : Piece :=
  if ts = [.tree] then tree
  else match spelled? ts with
    | some cs => literal cs
    | none => wild ts

/-- Whether a name fits. One that is no text fits nothing. -/
def Piece.accepts (s : Segment) : Piece → Bool
  | tree => false
  | literal cs => s = cs.map .char
  | wild ts => (s.mapM Utf8.Symbol.char?).any (fits ts)

/-- The components of an absolute pattern. The pattern is checked as a whole first. -/
def pieces (pattern : List Char) : Except PatternFault (List Piece) := do
  let _ ← parse pattern
  let ss := segments (Path.ofChars (pattern.drop 1)).chars
  let ss := if ss.getLast? = some [] then ss.dropLast else ss
  ss.mapM fun s => (parse (Path.mk s).shown).map Piece.ofTokens

end Monorepo.Glob
