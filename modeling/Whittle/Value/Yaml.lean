import Whittle.Value.Yaml.Document
import Whittle.Value.Yaml.Token.Lexer

/-!
Reading YAML 1.1; an empty document is nothing. Tokens are looked at as soon as they
are read: tokens that do not belong together are told before a fault that lies behind
them.
-/

namespace Whittle.Value.Yaml

/-- Why tokens make no document, if there are no more of them because of `fault`. -/
def faultOf (fault : Document.Fault) : Node.Stop → Document.Fault
  | .malformed => .malformed
  | .starved => fault
  | .tooDeep => .value .tooDeep

def read (text : String) : Except Document.Fault Value :=
  match Token.scan text.toList with
  | .ok tokens =>
    match Document.ofTokens tokens with
    | .ok document => document.toValue
    | .error stop => .error (faultOf .malformed stop)
  | .error { fault, before } =>
    let fault := (fault.map .value).getD .malformed
    match Document.ofTokens before with
    | .ok _ => .error fault
    | .error stop => .error (faultOf fault stop)

end Whittle.Value.Yaml
