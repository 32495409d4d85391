import Whittle.Value.Yaml.Node
import Whittle.Value.Yaml.Scalar

/-!
What a node is meant to be: a scalar of some form, or a list, a mapping, the keys of a
mapping or a list of pairs. Its tag says so; without one its content does.
-/

namespace Whittle.Value.Yaml

/-- The forms of what has parts: a list, a mapping, the keys of a mapping, or a list of pairs. -/
inductive PartForm where
  | sequence | mapping | keys | pairs
deriving DecidableEq, Repr

def PartForm.names : List (String × PartForm) :=
  [("seq", .sequence), ("map", .mapping), ("set", .keys), ("omap", .pairs), ("pairs", .pairs)]

/-- What a node is meant to be. -/
inductive Meaning where
  | scalar (form : Scalar.Form)
  | part (form : PartForm)
  | unknown
deriving DecidableEq, Repr

def Meaning.ofTag (tag : String) : Meaning :=
  match Scalar.Form.all.find? fun form => Node.standardTag form.name = tag with
  | some form => .scalar form
  | none =>
    match PartForm.names.find? fun entry => Node.standardTag entry.1 = tag with
    | some entry => .part entry.2
    | none => .unknown

/-- The meaning that a content has by itself. A scalar tells it by its looks if it is plain, or if
`asked` says that it is to. -/
def Content.meaning (asked : Bool) : Content → Meaning
  | .scalar written plain => .scalar (if plain || asked then Scalar.formOf written else .text)
  | .sequence _ => .part .sequence
  | .mapping _ => .part .mapping

/-- The meaning of a node; the tag `!` asks for the looks. -/
def Node.meaning (node : Node) : Meaning :=
  match node.tag with
  | none => node.content.meaning false
  | some "!" => node.content.meaning true
  | some tag => Meaning.ofTag tag

end Whittle.Value.Yaml
