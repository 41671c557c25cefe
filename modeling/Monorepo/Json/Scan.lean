import Monorepo.Json.Basic
import Monorepo.Text.Utf8

/-!
The words of a JSON text: blanks, names, numbers and strings. Every function takes the text that is
left and gives back what it leaves in turn.
-/
namespace Monorepo.Json

/-- A flaw, and how many bytes of the text are left behind the place where it was met. -/
structure Stop where
  flaw : Flaw
  left : Nat

abbrev Scan (α : Type) := Except Stop (α × List Char)

def stopBefore (flaw : Flaw) (rest : List Char) : Except Stop α := .error ⟨flaw, Utf8.size rest⟩

/-- A flaw at the first byte of `rest`, which counts as read. -/
def stopAt (flaw : Flaw) (rest : List Char) : Except Stop α := .error ⟨flaw, Utf8.size rest - 1⟩

/-- How closely a text is read. What is only skimmed needs its brackets and quotes to be in order,
but its numbers may be of any size and its escapes of any value, and it may be nested at will. -/
inductive Care where
  | full
  | skim
deriving DecidableEq

def isBlank (c : Char) : Bool := c = ' ' || c = '\n' || c = '\t' || c = '\r'

def skipBlank (cs : List Char) : List Char := cs.dropWhile isBlank

def readWord : List Char → List Char → Except Stop (List Char)
  | [], cs => .ok cs
  | _ :: _, [] => stopBefore .unfinishedValue []
  | w :: ws, c :: cs => if c = w then readWord ws cs else stopBefore .expectedWord cs

/-- The number to the nearest multiple of a power of two that leaves 53 bits; a tie goes to even. -/
def roundTo53Bits (n : Nat) : Nat :=
  let unit := Nat.pow 2 (Nat.log2 n + 1 - 53)
  let q := n / unit
  let r := n % unit
  if 2 * r < unit ∨ (2 * r = unit ∧ q % 2 = 0) then q * unit else (q + 1) * unit

/-- Takes digits into a significand for as long as it fits in 64 bits, and gives those left over. -/
def takeDigits : Nat → List Char → Nat × List Char
  | n, [] => (n, [])
  | n, d :: ds =>
    let m := n * 10 + (d.toNat - 48)
    if m < 2 ^ 64 then takeDigits m ds else (n, d :: ds)

/-- The least number that no double is near to. -/
def overflow : Nat := Nat.pow 2 1024 - Nat.pow 2 970

/-- Whether significand and power of ten, each rounded to 53 bits, have a product that is too large
for a double. -/
def isOutOfRange (significand : Nat) (exponent : Int) : Bool :=
  if significand = 0 ∨ exponent < 0 then false
  else if 308 < exponent then true
  else overflow ≤ roundTo53Bits significand * roundTo53Bits (Nat.pow 10 exponent.toNat)

/-- The digits of an exponent from the left until its value passes 31 bits; what is left then. -/
def overlongExponent? : Nat → List Char → Option (List Char)
  | _, [] => none
  | n, d :: ds =>
    let m := n * 10 + (d.toNat - 48)
    if m < 2 ^ 31 then overlongExponent? m ds else some ds

structure Numeral where
  negative : Bool
  whole : List Char
  fraction : List Char
  exponent : Option (Char × Option Char × List Char)

namespace Numeral

def sign (n : Numeral) : List Char := if n.negative then ['-'] else []

def chars (n : Numeral) : List Char :=
  n.sign ++ n.whole ++ (if n.fraction = [] then [] else '.' :: n.fraction)
    ++ match n.exponent with
      | none => []
      | some (e, sign?, ds) => e :: (sign?.toList ++ ds)

/-- A number is refused when it is too large for a double; `rest` is the text behind it. A number
spelled as an integer of at most 64 bits is never looked at. -/
def checkRange (n : Numeral) (rest : List Char) : Except Stop Unit :=
  let (m, excess) := takeDigits 0 n.whole
  if n.fraction = [] ∧ n.exponent = none ∧ excess = [] then .ok () else
  let (m, excess') := takeDigits m n.fraction
  let shift : Int := excess.length - (n.fraction.length - excess'.length : Nat)
  match n.exponent with
  | none => if isOutOfRange m shift then stopBefore .numberOutOfRange rest else .ok ()
  | some (_, sign?, ds) =>
    match overlongExponent? 0 ds with
    | some ds' =>
      if m ≠ 0 ∧ sign? ≠ some '-' then stopBefore .numberOutOfRange (ds' ++ rest) else .ok ()
    | none =>
      let e : Int := (ds.foldl (fun k d => k * 10 + (d.toNat - 48)) 0 : Nat)
      let e := if sign? = some '-' then shift - e else shift + e
      if isOutOfRange m e then stopBefore .numberOutOfRange rest else .ok ()

end Numeral

def numberCut (care : Care) : Except Stop α :=
  stopBefore (if care = .full then .unfinishedValue else .invalidNumber) []

def readWhole (care : Care) : List Char → Scan (List Char)
  | [] => numberCut care
  | '0' :: cs =>
    if (cs.head?.any Char.isDigit) then stopAt .invalidNumber cs else .ok (['0'], cs)
  | c :: cs =>
    if c.isDigit then .ok (c :: cs.takeWhile Char.isDigit, cs.dropWhile Char.isDigit)
    else stopBefore .invalidNumber cs

def readFraction (care : Care) : List Char → Scan (List Char)
  | '.' :: cs =>
    match cs.takeWhile Char.isDigit, cs.dropWhile Char.isDigit with
    | [], [] => numberCut care
    | [], rest => stopAt .invalidNumber rest
    | ds, rest => .ok (ds, rest)
  | cs => .ok ([], cs)

def readExponent (care : Care) : List Char → Scan (Option (Char × Option Char × List Char))
  | [] => .ok (none, [])
  | e :: cs =>
    if e ≠ 'e' ∧ e ≠ 'E' then .ok (none, e :: cs) else
    let sign? := cs.head?.filter fun c => c = '+' || c = '-'
    let ds := if sign?.isSome then cs.drop 1 else cs
    match ds with
    | [] => numberCut care
    | d :: rest =>
      if d.isDigit then .ok (some (e, sign?, ds.takeWhile Char.isDigit), ds.dropWhile Char.isDigit)
      else stopBefore .invalidNumber rest

def readNumber (care : Care) (cs : List Char) : Except Stop (List Char × List Char) := do
  let negative := cs.head? = some '-'
  let (whole, cs) ← readWhole care (if negative then cs.drop 1 else cs)
  let (fraction, cs) ← readFraction care cs
  let (exponent, cs) ← readExponent care cs
  let numeral : Numeral := ⟨negative, whole, fraction, exponent⟩
  if care = .full then numeral.checkRange cs
  return (numeral.chars, cs)

def hexValue? (c : Char) : Option Nat :=
  if '0' ≤ c ∧ c ≤ '9' then some (c.toNat - 48)
  else if 'a' ≤ c ∧ c ≤ 'f' then some (c.toNat - 87)
  else if 'A' ≤ c ∧ c ≤ 'F' then some (c.toNat - 55)
  else none

def hexQuad? : List Char → Option Nat
  | a :: b :: c :: d :: _ => do
    let a ← hexValue? a
    let b ← hexValue? b
    let c ← hexValue? c
    let d ← hexValue? d
    return ((a * 16 + b) * 16 + c) * 16 + d
  | _ => none

/-- Four bytes are taken before they are looked at. -/
def readQuad (cs : List Char) : Except Stop Nat :=
  if Utf8.size (cs.take 4) < 4 then stopBefore .unfinishedString []
  else match hexQuad? cs with
    | some n => .ok n
    | none => .error ⟨.invalidEscape, Utf8.size cs - 4⟩

def readSecondHalf (first : Nat) : List Char → Except Stop Char
  | [] => stopBefore .unfinishedString []
  | c :: cs =>
    if c ≠ '\\' then stopAt .unpairedEscape (c :: cs) else
    match cs with
    | [] => stopBefore .unfinishedString []
    | u :: cs =>
      if u ≠ 'u' then stopAt .unpairedEscape (u :: cs) else do
      let second ← readQuad cs
      if 0xdc00 ≤ second ∧ second ≤ 0xdfff then
        return Char.ofNat (0x10000 + (first - 0xd800) * 0x400 + (second - 0xdc00))
      else stopBefore .loneSurrogate (cs.drop 4)

def escaped? (c : Char) : Option Char :=
  if c = '"' ∨ c = '\\' ∨ c = '/' then some c
  else if c = 'b' then some '\x08'
  else if c = 'f' then some '\x0c'
  else if c = 'n' then some '\n'
  else if c = 'r' then some '\r'
  else if c = 't' then some '\t'
  else none

def readEscape (care : Care) : List Char → Except Stop (Char × Nat)
  | [] => stopBefore .unfinishedString []
  | c :: cs =>
    match escaped? c with
    | some e => .ok (e, 1)
    | none =>
      if c ≠ 'u' then stopBefore .invalidEscape cs else do
      let n ← readQuad cs
      if care = .skim ∨ n < 0xd800 ∨ 0xdfff < n then return (Char.ofNat n, 5)
      else if 0xdc00 ≤ n then stopBefore .loneSurrogate (cs.drop 4)
      else return (← readSecondHalf n (cs.drop 4), 11)

def readString (care : Care) : List Char → Scan (List Char)
  | [] => stopBefore .unfinishedString []
  | c :: cs =>
    if c = '"' then .ok ([], cs)
    else if c = '\\' then
      match readEscape care cs with
      | .error stop => .error stop
      | .ok (e, n) => (readString care (cs.drop n)).map fun (s, rest) => (e :: s, rest)
    else if c.toNat < 0x20 then stopBefore .controlCharacter cs
    else (readString care cs).map fun (s, rest) => (c :: s, rest)
termination_by cs => cs.length
decreasing_by all_goals (simp only [List.length_drop, List.length_cons]; omega)

end Monorepo.Json
