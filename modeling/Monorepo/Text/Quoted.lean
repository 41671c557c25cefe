import Monorepo.Text.Unprintable

/-!
Text between double quotes, for messages. Whatever could not be told apart on a page is written as
an escape, so the quoted form shows each character of the text.
-/
namespace Monorepo.Quoted

/-- A character is written as it stands unless it has no mark of its own. -/
def isPlain (c : Char) : Bool :=
  if c.val < 0x80 then 0x20 ≤ c.val && c.val < 0x7f else !Unprintable.contains c.toNat

def escape (c : Char) : List Char :=
  if c = '\x00' then ['\\', '0']
  else if c = '\t' then ['\\', 't']
  else if c = '\r' then ['\\', 'r']
  else if c = '\n' then ['\\', 'n']
  else if c = '\\' then ['\\', '\\']
  else if c = '"' then ['\\', '"']
  else if isPlain c then [c]
  else ['\\', 'u', '{'] ++ Nat.toDigits 16 c.toNat ++ ['}']

def quote (s : String) : String := String.ofList ('"' :: (s.toList.flatMap escape ++ ['"']))

end Monorepo.Quoted
