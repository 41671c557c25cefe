/-!
Bytes read as text. A run of bytes that begins a character but does not finish it is one fault, and
so is each byte that can begin none; reading goes on behind it. Nothing is lost on the way: what was
read still says which bytes it came from.
-/
namespace Monorepo.Utf8

/-- What a first byte announces: its share of the code point, how many bytes follow, and the range
of the next one. Later ones range over all of `0x80` to `0xbf`. -/
structure Lead where
  value : Nat
  more : Nat
  low : Nat
  high : Nat

def lead? (b : Nat) : Option Lead :=
  if b < 0x80 then some ⟨b, 0, 0x80, 0xbf⟩
  else if b < 0xc2 then none
  else if b < 0xe0 then some ⟨b - 0xc0, 1, 0x80, 0xbf⟩
  else if b = 0xe0 then some ⟨0, 2, 0xa0, 0xbf⟩
  else if b = 0xed then some ⟨0xd, 2, 0x80, 0x9f⟩
  else if b < 0xf0 then some ⟨b - 0xe0, 2, 0x80, 0xbf⟩
  else if b = 0xf0 then some ⟨0, 3, 0x90, 0xbf⟩
  else if b < 0xf4 then some ⟨b - 0xf0, 3, 0x80, 0xbf⟩
  else if b = 0xf4 then some ⟨4, 3, 0x80, 0x8f⟩
  else none

/-- Takes up the bytes that a first byte announced. Gives the code point if none is missing or out
of range, and what is left. -/
def follow (value low high : Nat) : Nat → List UInt8 → Option Nat × List UInt8
  | 0, bs => (some value, bs)
  | _ + 1, [] => (none, [])
  | n + 1, b :: bs =>
    if low ≤ b.toNat ∧ b.toNat ≤ high then follow (value * 64 + (b.toNat - 0x80)) 0x80 0xbf n bs
    else (none, b :: bs)

theorem follow_length (value low high n : Nat) (bs : List UInt8) :
    (follow value low high n bs).2.length ≤ bs.length := by
  induction n generalizing value low high bs with
  | zero => simp [follow]
  | succ n ih =>
    cases bs with
    | nil => simp [follow]
    | cons b bs =>
      simp only [follow]
      split
      · exact Nat.le_succ_of_le (ih ..)
      · exact Nat.le_refl _

/-- What is read at once: a character, or bytes that are none. -/
inductive Symbol where
  | char (c : Char)
  | fault (bytes : List UInt8)
deriving DecidableEq

namespace Symbol

def char? : Symbol → Option Char
  | char c => some c
  | fault _ => none

def shown : Symbol → Char
  | char c => c
  | fault _ => '\uFFFD'

def bytes : Symbol → List UInt8
  | char c => String.utf8EncodeChar c
  | fault bytes => bytes

end Symbol

/-- The characters in order, and a fault wherever bytes are none. -/
def decode : List UInt8 → List Symbol
  | [] => []
  | b :: bs =>
    match lead? b.toNat with
    | none => .fault [b] :: decode bs
    | some l =>
      have := follow_length l.value l.low l.high l.more bs
      let r := follow l.value l.low l.high l.more bs
      let symbol := match r.1 with
        | some v => .char (Char.ofNat v)
        | none => .fault (b :: bs.take (bs.length - r.2.length))
      symbol :: decode r.2
termination_by bs => bs.length

def text? (symbols : List Symbol) : Option String :=
  (symbols.mapM Symbol.char?).map String.ofList

def shown (symbols : List Symbol) : List Char := symbols.map Symbol.shown

def decode? (bs : List UInt8) : Option String := text? (decode bs)

def decodeLossy (bs : List UInt8) : String := String.ofList (shown (decode bs))

def ofString (s : String) : List Symbol := s.toList.map .char

def encode (cs : List Char) : List UInt8 := cs.flatMap String.utf8EncodeChar

def size : List Char → Nat
  | [] => 0
  | c :: cs => c.utf8Size + size cs

def bytes (symbols : List Symbol) : List UInt8 := symbols.flatMap Symbol.bytes

def width (symbols : List Symbol) : Nat := (bytes symbols).length

end Monorepo.Utf8
