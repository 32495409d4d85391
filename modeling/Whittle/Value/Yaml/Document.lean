import Whittle.Value.Yaml.Slots
import Whittle.Value.Yaml.Survey

/-!
The value of a document. A key that is given twice counts the second time, and what
holds itself is unfolded a few times.
-/

namespace Whittle.Value.Yaml.Document

/-! ### Keys -/

/-- A key, with the mark that tells it from others that are no number either. -/
structure Key where
  value : Value
  mark : Nat

def Key.same (left right : Key) : Bool :=
  left.value.same right.value ||
    (left.value.isNaN && right.value.isNaN && left.mark = right.mark)

/-- Sets the value of a key: in its place if it is there, else at the end. -/
def insert (key : Key) (value : Value) : List (Key × Value) → List (Key × Value)
  | [] => [(key, value)]
  | (other, old) :: rest =>
    if other.same key then (other, value) :: rest else (other, old) :: insert key value rest

/-- A mapping with the entries in order; of two with one key the later counts. -/
def collect (entries : List (Key × Value)) : List (Value × Value) :=
  (entries.foldl (fun all entry => insert entry.1 entry.2 all) []).map fun entry =>
    (entry.1.value, entry.2)

/-! ### Values -/

def keyOf (made : Array (Option Made)) (number : Nat) : Key :=
  match made.getD number none with
  | some (.value value mark) => { value, mark }
  | _ => { value := .null, mark := number }

def entriesOf (made : Array (Option Made)) (values : Array Value) (entries : Array Entry) :
    List (Value × Value) :=
  collect (entries.toList.map fun entry => (keyOf made entry.1, values.getD entry.2 .null))

/-- The value of what was made of a node, given those of all nodes. -/
def valueOf (made : Array (Option Made)) (values : Array Value) : Made → Value
  | .value value _ => value
  | .list items => .list (items.map (values.getD · .null))
  | .map entries => .map (entriesOf made values entries)
  | .keys entries => .setOf (Slots.arrange ((entriesOf made values entries).map Prod.fst))
  | .pairs entries => .list (entries.map fun entry =>
    .pair (values.getD entry.1 .null) (values.getD entry.2 .null))

/-- What stands for the value of a node inside itself. -/
def standIn : Option Made → Value
  | none => .null
  | some (.value value _) => value
  | some (.list _) | some (.pairs _) => .again .list
  | some (.map _) => .again .map
  | some (.keys _) => .again .set

def nodesIn : Made → List Nat
  | .value _ _ => []
  | .list items => items
  | .map entries | .keys entries => entries.toList.flatMap fun entry => [entry.1, entry.2]
  | .pairs entries => entries.flatMap fun entry => [entry.1, entry.2]

/-- Whether each node, in an order, comes after all that are in it. -/
def isStraight (made : Array (Option Made)) (order : List Nat) : Bool :=
  let (straight, _) := order.foldl (fun (straight, done) number =>
    (straight && (((made.getD number none).map nodesIn).getD []).all (done.getD · false),
      done.setIfInBounds number true)) (true, Array.replicate made.size false)
  straight

/-- How often a node that stands inside itself is unfolded there. -/
def unfoldings : Nat := 4

/-- The values of the nodes, each made after those in it; one inside itself has the value that it
had a turn before. -/
def valuesOf (made : Array (Option Made)) (order : List Nat) : Nat → Array Value
  | 0 => made.map standIn
  | turns + 1 =>
    order.foldl (fun values number =>
      match made.getD number none with
      | some found => values.setIfInBounds number (valueOf made values found)
      | none => values) (valuesOf made order turns)

def toValue (document : Document) : Except Fault Value := do
  let made ← document.made
  let turns := if isStraight made document.order then 1 else unfoldings
  return (valuesOf made document.order turns).getD document.top .null

end Whittle.Value.Yaml.Document
