import Monorepo.Path.Basic

/-!
The decisions of a resolution in the order in which they were taken.
-/
namespace Monorepo

namespace Trace

structure Step where
  name : String
  ok : Bool
  detail : String
  path : Option Path := none
deriving DecidableEq

structure Warning where
  code : String
  message : String
deriving DecidableEq

end Trace

structure Trace where
  steps : List Trace.Step := []
  warnings : List Trace.Warning := []
deriving DecidableEq

namespace Trace

def ofStep (name : String) (ok : Bool) (path : Option Path) (detail : String) : Trace :=
  ⟨[⟨name, ok, detail, path⟩], []⟩

def ofWarning (code message : String) : Trace := ⟨[], [⟨code, message⟩]⟩

def append (t u : Trace) : Trace := ⟨t.steps ++ u.steps, t.warnings ++ u.warnings⟩

instance : Append Trace := ⟨append⟩

def stepNames (t : Trace) : List String := t.steps.map (·.name)

end Trace

inductive Recorder where
  | off
  | on
deriving DecidableEq

namespace Recorder

def step : Recorder → String → Bool → Option Path → String → Trace
  | off, _, _, _, _ => {}
  | on, name, ok, path, detail => .ofStep name ok path detail

def warning : Recorder → String → String → Trace
  | off, _, _ => {}
  | on, code, message => .ofWarning code message

end Recorder
end Monorepo
