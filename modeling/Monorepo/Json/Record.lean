import Monorepo.Json.Basic

/-!
JSON values taken for records. A record is written as an object, or as an array of its fields in
order; a field left out and a field that is null are both unset.
-/
namespace Monorepo.Json

/-- The only value under a key, if any. A key given twice is refused. -/
def single? (members : List (String × Json)) (key : String) : Option (Option Json) :=
  match members.filter (·.1 == key) with
  | [] => some none
  | [m] => some (some m.2)
  | _ => none

/-- The fields of a record in the order of their keys. Other keys are of no interest, but an array
may have no more items than there are keys. -/
def fields? (keys : List String) : Json → Option (List (Option Json))
  | object members => keys.mapM (single? members)
  | array items =>
    if items.length ≤ keys.length then
      some (items.map some ++ List.replicate (keys.length - items.length) none)
    else none
  | _ => none

def text? : Option Json → Option (Option String)
  | none => some none
  | some null => some none
  | some (string s) => some (some s)
  | some _ => none

def switch? : Option Json → Option (Option Bool)
  | none => some none
  | some null => some none
  | some (bool b) => some (some b)
  | some _ => none

end Monorepo.Json
