import Monorepo.Path.Basic
import Monorepo.Settings

/-!
What the environment says about configurations: where to take one from, and which mode to work in.
-/
namespace Monorepo

structure Environment where
  root : Option Path := none
  config : Option Path := none
  mode : Option String := none
  babelMode : Option String := none
  nodeMode : Option String := none
deriving DecidableEq

/-- The environment that a list of variables describes. An empty variable counts as unset, and so
does one that is no text. -/
def Environment.ofVariables (vars : List (String × List Utf8.Symbol)) : Environment :=
  let value (name : String) : Option String := filled? ((vars.lookup name).bind Utf8.text?)
  { root := (value "UNIVERSAL_RESOLVER_ROOT").map .ofString
    config := (value "UNIVERSAL_RESOLVER_CONFIG").map .ofString
    mode := value "UNIVERSAL_RESOLVER_MODE"
    babelMode := value "BABEL_ENV"
    nodeMode := value "NODE_ENV" }

end Monorepo
