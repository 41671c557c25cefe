/-!
How specifiers are resolved: the directories that packages map to where they do not say so
themselves, and which kinds of specifiers are resolved at all.
-/
namespace Monorepo

inductive Mode where
  | development
  | production
deriving DecidableEq

namespace Mode

def name : Mode → String
  | development => "development"
  | production => "production"

def isProduction (m : Mode) : Bool := m == production

def ofString? (s : String) : Option Mode :=
  if s = "development" then some development
  else if s = "production" then some production
  else none

end Mode

structure Settings where
  mode : Mode := .development
  /-- The token that stands for the source directory of the package one is in. -/
  aliasToken : String := "~"
  source : String := "src"
  /-- The directory that a package's bare name stands for, if not that of the sources. -/
  entry : Option String := none
  output : Option String := none
  resolveAliases : Bool := true
  resolvePackages : Bool := true
  resolveEntries : Bool := true
  resolveLinks : Bool := true
  resolveOwnName : Bool := true
deriving DecidableEq

namespace Settings

def standard : Settings := {}

/-- The directory of the build output in a project that names none. -/
def projectOutput : String := "dist"

end Settings

def filled? (s : Option String) : Option String := s.filter (· ≠ "")

end Monorepo
