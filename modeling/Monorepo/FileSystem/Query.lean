import Monorepo.FileSystem.Walk

/-!
Questions to a disk. Where something is only missing, the answer says so; every other fault is
passed on.
-/
namespace Monorepo.FileSystem

def currentDirectory (fs : FileSystem) : Except Fault Path :=
  if fs.standpoint.lost = 0 then .ok (Location.path fs.standpoint.location) else .error .notFound

def present (fs : FileSystem) (p : Path) : Except Fault Bool :=
  match fs.lookup p with
  | .ok _ => .ok true
  | .error e => if e.isAbsence then .ok false else .error e

def isDirectory (fs : FileSystem) (p : Path) : Bool :=
  match fs.lookup p with
  | .ok e => e == .directory
  | .error _ => false

/-- Whether there is something at `p`, if only a link that leads nowhere. -/
def isListed (fs : FileSystem) (p : Path) : Bool := (fs.lookupLink p).toBool

/-- The names in the directory at `p`. In a removed directory there are none. -/
def list (fs : FileSystem) (p : Path) : Except Fault (List Segment) :=
  match fs.follow ⟨true, false⟩ p with
  | .ok (.taken l) =>
    if ¬ fs.isDirectoryAt l then .error .notADirectory
    else if l ∈ fs.closed then .error .denied
    else .ok (fs.children l)
  | .ok (.free _) => .error .notFound
  | .ok (.gone _) => .ok []
  | .error e => .error e

def realPath (fs : FileSystem) (p : Path) : Except Fault (Option Path) :=
  match fs.follow ⟨true, true⟩ p with
  | .ok (.taken l) => .ok (some (Location.path l))
  | .ok _ => .ok none
  | .error e => if e.isAbsence then .ok none else .error e

def readBytes (fs : FileSystem) (p : Path) : Except Fault (List UInt8) := do
  match ← fs.lookup p with
  | .file bytes => return bytes
  | .directory => throw .isADirectory
  | .link _ => throw .notFound

def readLossy (fs : FileSystem) (p : Path) : Except Fault String :=
  (fs.readBytes p).map Utf8.decodeLossy

/-- The text of a file if there is one. Unlike elsewhere, a path through a file is a fault here. -/
def readOptional (fs : FileSystem) (p : Path) : Except Fault (Option String) :=
  match fs.readLossy p with
  | .ok text => .ok (some text)
  | .error .notFound => .ok none
  | .error e => .error e

def readText (fs : FileSystem) (p : Path) : Except Fault String := do
  let bytes ← fs.readBytes p
  match Utf8.decode? bytes with
  | some text => .ok text
  | none => .error .notUtf8

def changeDirectory (fs : FileSystem) (p : Path) : Except Fault FileSystem := do
  match ← fs.follow ⟨true, false⟩ p with
  | .taken l =>
    if fs.isDirectoryAt l then return { fs with standpoint := { location := l } }
    else throw .notADirectory
  | .free _ => throw .notFound
  | .gone s => return { fs with standpoint := s }

end Monorepo.FileSystem
