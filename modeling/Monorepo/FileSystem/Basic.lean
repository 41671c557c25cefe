import Monorepo.Path.Basic
import Monorepo.Text.Utf8

/-!
A disk as a value: what stands where, and the directory that relative paths start from. Each thing
has one location, the names that lead to it from the root; links are entries like any other.
-/
namespace Monorepo

abbrev Location := List Segment

inductive Entry where
  | directory
  | file (bytes : List UInt8)
  | link (target : Path)
deriving DecidableEq

/-- The directory that relative paths start from. The last `lost` directories on the way to it were
removed since it was entered; there is nothing in them any more, but one still stands in the
last. -/
structure Standpoint where
  location : Location
  lost : Nat := 0
deriving DecidableEq

structure FileSystem where
  /-- Of several entries for one location the first one counts. -/
  entries : List (Location × Entry)
  standpoint : Standpoint
  /-- Directories that may be entered, but whose names are kept back. -/
  closed : List Location := []

def Location.path (l : Location) : Path := ⟨slash :: joinSegments l⟩

namespace FileSystem

def blank : FileSystem := { entries := [], standpoint := { location := [] } }

/-- The root is a directory on every disk. -/
def entry? (fs : FileSystem) (l : Location) : Option Entry :=
  if l = [] then some .directory else fs.entries.lookup l

def isDirectoryAt (fs : FileSystem) (l : Location) : Bool := fs.entry? l == some .directory

def insertName (s : Segment) : List Segment → List Segment
  | [] => [s]
  | t :: rest =>
    if s = t then t :: rest
    else if Utf8.bytes s < Utf8.bytes t then s :: t :: rest else t :: insertName s rest

def childName? (l m : Location) : Option Segment :=
  match l, m with
  | [], [s] => some s
  | a :: l, b :: m => if a = b then childName? l m else none
  | _, _ => none

/-- The names in a directory, in the ascending order of their bytes and each once. -/
def children (fs : FileSystem) (l : Location) : List Segment :=
  (fs.entries.filterMap fun e => childName? l e.1).foldr insertName []

inductive Fault where
  | notFound
  | notADirectory
  | isADirectory
  | nameTooLong
  | tooManyLinks
  | nulInPath
  | notUtf8
  | refused (reason : String)
deriving DecidableEq

/-- The names in a closed directory cannot be had. -/
def Fault.denied : Fault := refused "Permission denied (os error 13)"

def Fault.message : Fault → String
  | notFound => "No such file or directory (os error 2)"
  | notADirectory => "Not a directory (os error 20)"
  | isADirectory => "Is a directory (os error 21)"
  | nameTooLong => "File name too long (os error 36)"
  | tooManyLinks => "Too many levels of symbolic links (os error 40)"
  | nulInPath => "file name contained an unexpected NUL byte"
  | notUtf8 => "stream did not contain valid UTF-8"
  | refused reason => reason

/-- The faults that only say that nothing is there. A path that runs through a file leads
nowhere. -/
def Fault.isAbsence : Fault → Bool
  | notFound | notADirectory => true
  | _ => false

end FileSystem
end Monorepo
