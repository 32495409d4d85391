import Whittle.Grammar

/-!
Registries of grammars. The first grammar that is for a path is chosen, and the
fallback if there is none.
-/

namespace Whittle.Grammar

/-- Grammars in order, and one for all other files. -/
structure Registry where
  grammars : List Grammar := []
  fallback : Option Grammar := none
deriving DecidableEq, Repr

namespace Registry

def register (registry : Registry) (grammar : Grammar) : Registry :=
  { registry with grammars := registry.grammars ++ [grammar] }

def setFallback (registry : Registry) (grammar : Grammar) : Registry :=
  { registry with fallback := some grammar }

/-- Whether a grammar other than the fallback is for a path. -/
def covers (registry : Registry) (path : String) : Bool :=
  registry.grammars.any (·.supports path)

/-- The grammars in order, the fallback last. -/
def all (registry : Registry) : List Grammar :=
  registry.grammars ++ registry.fallback.toList

def names (registry : Registry) : List String :=
  registry.all.map (·.name)

def select (registry : Registry) (path : String) : Except Failure Grammar :=
  match registry.grammars.find? (·.supports path) with
  | some grammar => .ok grammar
  | none =>
    match registry.fallback with
    | some grammar => .ok grammar
    | none => .error (.noGrammarFor path)

def get (registry : Registry) (name : String) : Except Failure Grammar :=
  match registry.all.find? (·.name = name) with
  | some grammar => .ok grammar
  | none => .error (.noGrammarNamed name)

end Registry
end Whittle.Grammar
