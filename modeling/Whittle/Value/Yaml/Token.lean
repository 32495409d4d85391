import Whittle.Value.Convert

/-!
Tokens of a YAML document. Blocks have a start and an end, which the indentation
tells; keys are marked even where only the colon after them shows it.
-/

namespace Whittle.Value.Yaml

/-- A token. -/
inductive Token where
  | version (major : Nat)
  | handle (name meaning : String)
  | directive
  | documentStart
  | documentEnd
  | blockSequence
  | blockMapping
  | blockEnd
  | openSequence
  | closeSequence
  | openMapping
  | closeMapping
  | blockEntry
  | flowEntry
  | key
  | value
  | alias (name : String)
  | anchor (name : String)
  | tag (handle : Option String) (suffix : String)
  | scalar (text : String) (plain : Bool)
  | streamEnd
deriving DecidableEq, Repr

/-- There is no next token: the document is malformed, or there is a fault in what it says; `before`
are the tokens that a reader has had by then. -/
structure Token.Stop where
  fault : Option Fault
  before : List Token

end Whittle.Value.Yaml
