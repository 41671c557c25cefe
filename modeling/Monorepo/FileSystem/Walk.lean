import Monorepo.FileSystem.Basic

/-!
Paths followed on a disk, segment by segment from the left, so that the first segment at fault
decides. Links are followed where they are met and `..` goes up from where one then is.
-/
namespace Monorepo.FileSystem

inductive Place where
  | taken (l : Location)
  | free (l : Location)
  | gone (s : Standpoint)

def nameLimit : Nat := 255

/-- A path of this many bytes is too long. -/
def pathLimit : Nat := 4096

def linkLimit : Nat := 40

structure Manner where
  /-- Whether a link in the last place is followed too. -/
  toEnd : Bool
  /-- Whether the path of each place on the way must keep to the limit. -/
  measured : Bool

/-- Follows `pending` from `here`; `links` more links may be followed. Any segment, even a blank
one, needs `here` to be a directory. -/
def walk (fs : FileSystem) (how : Manner) :
    (links : Nat) → (here : Location) → (pending : List Segment) → Except Fault Place
  | _, here, [] => .ok (.taken here)
  | links, here, s :: rest =>
    if Path.isBlank s then
      if fs.isDirectoryAt here then walk fs how links here rest else .error .notADirectory
    else if s = [dot, dot] then
      if fs.isDirectoryAt here then walk fs how links here.dropLast rest else .error .notADirectory
    else
      let there := here ++ [s]
      if how.measured ∧ pathLimit ≤ Utf8.width (Location.path there).chars then .error .nameTooLong
      else if ¬ fs.isDirectoryAt here then .error .notADirectory
      else if nameLimit < Utf8.width s then .error .nameTooLong
      else match fs.entry? there with
        | none => if rest = [] then .ok (.free there) else .error .notFound
        | some (.link target) =>
          if rest = [] ∧ ¬ how.toEnd then .ok (.taken there)
          else match links with
            | 0 => .error .tooManyLinks
            | links + 1 =>
              walk fs how links (if target.isAbsolute then [] else here)
                (segments target.chars ++ rest)
        | some _ => walk fs how links there rest
termination_by links _ pending => (links, pending.length)

/-- Follows `pending` from a standpoint of which `lost` directories were removed. Nothing is left in
those but the way up. -/
def leave (fs : FileSystem) (how : Manner) :
    (lost : Nat) → (here : Location) → (pending : List Segment) → Except Fault Place
  | 0, here, pending => walk fs how linkLimit here pending
  | lost + 1, here, [] => .ok (.gone ⟨here, lost + 1⟩)
  | lost + 1, here, s :: rest =>
    if Path.isBlank s then leave fs how (lost + 1) here rest
    else if s = [dot, dot] then leave fs how lost here.dropLast rest
    else .error .notFound
termination_by _ _ pending => pending.length

/-- Follows a whole path. A measured way starts from the root in any case. -/
def follow (fs : FileSystem) (how : Manner) (p : Path) : Except Fault Place :=
  if .char '\x00' ∈ p.chars then .error .nulInPath
  else if p.isEmpty then .error .notFound
  else if ¬ how.measured ∧ pathLimit ≤ Utf8.width p.chars then .error .nameTooLong
  else if p.isAbsolute then walk fs how linkLimit [] (segments p.chars)
  else if how.measured ∧ fs.standpoint.lost ≠ 0 then .error .notFound
  else leave fs how fs.standpoint.lost fs.standpoint.location (segments p.chars)

def Place.entry (fs : FileSystem) : Place → Except Fault Entry
  | taken l =>
    match fs.entry? l with
    | some e => .ok e
    | none => .error .notFound
  | free _ => .error .notFound
  | gone _ => .ok .directory

def lookup (fs : FileSystem) (p : Path) : Except Fault Entry :=
  fs.follow ⟨true, false⟩ p >>= Place.entry fs

def lookupLink (fs : FileSystem) (p : Path) : Except Fault Entry :=
  fs.follow ⟨false, false⟩ p >>= Place.entry fs

end Monorepo.FileSystem
