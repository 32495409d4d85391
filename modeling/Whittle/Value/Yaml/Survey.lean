import Whittle.Value.Yaml.Meaning

/-!
Making something of every node of a document, in order: the outermost node first, then
what is in it, level by level. A scalar is made when it is met; a list or a mapping is
met first, and what is in it when its turn comes. Whatever a node is, it is made once.

Mappings may take entries over from others, and a key that is an equals sign is a text
from then on, wherever its node stands. So what comes earlier may change what a later
node is made of, and of several faults the first one met is told.
-/

namespace Whittle.Value.Yaml

/-- Why a document has no value: it is malformed, or what it says is out of range. -/
inductive Document.Fault where
  | malformed
  | value (fault : Value.Fault)
deriving DecidableEq, Repr

abbrev Entry := Nat × Nat

/-- What was made of a node: a value, or something that holds what was made of others. The mark
tells values apart that are equal to nothing, not even to themselves. -/
inductive Made where
  | value (value : Value) (mark : Nat)
  | list (items : List Nat)
  | map (entries : Array Entry)
  | keys (entries : Array Entry)
  | pairs (entries : List Entry)

/-- What is known while a document is looked through: what its nodes mean and hold, what was made
of them, and which of them wait for their turn, latest first. -/
structure Survey where
  meanings : Array Meaning
  contents : Array Content
  made : Array (Option Made)
  waiting : List Nat

namespace Survey

/-- A step of looking through a document. -/
abbrev Visit (α : Type) := StateT Survey (Except Document.Fault) α

def meaningAt (survey : Survey) (number : Nat) : Meaning :=
  survey.meanings.getD number .unknown

def contentAt (survey : Survey) (number : Nat) : Content :=
  survey.contents.getD number (.sequence [])

def entriesAt (survey : Survey) (number : Nat) : Array Entry :=
  match survey.contentAt number with
  | .mapping entries => entries
  | .scalar _ _ | .sequence _ => #[]

/-! ### Scalars -/

/-- How many mappings in a row may tell what they are as a scalar by another. -/
def chainLimit : Nat := 980

/-- What is written in a scalar, or in the value of the equals sign in a mapping. -/
def written (survey : Survey) (fuel number : Nat) : Except Document.Fault String :=
  match survey.contentAt number with
  | .scalar written _ => .ok written
  | .sequence _ => .error .malformed
  | .mapping entries =>
    match entries.find? fun entry => survey.meaningAt entry.1 = .scalar .equals, fuel with
    | none, _ => .error .malformed
    | some _, 0 => .error (.value .tooDeep)
    | some entry, fuel + 1 => written survey fuel entry.2

/-- The value of a scalar of a form. A moment must be written outright. -/
def scalarValue (survey : Survey) (form : Scalar.Form) (number : Nat) :
    Except Document.Fault Made := do
  if form.isSign then throw .malformed
  let text ← survey.written chainLimit number
  match survey.contentAt number, form with
  | .mapping _, .timestamp => throw (.value (.notSearchable .list))
  | _, _ =>
    match Scalar.read? form text with
    | some (.ok value) =>
      return .value value (if Scalar.isNamedNaN text then survey.contents.size else number)
    | some (.error fault) => throw (.value fault)
    | none => throw .malformed

/-! ### Taking entries over -/

def changeEntries (number : Nat) (change : Array Entry → Array Entry) : Visit Unit :=
  modify fun survey =>
    let entries := change (survey.entriesAt number)
    { survey with contents := survey.contents.setIfInBounds number (.mapping entries) }

def makeText (number : Nat) : Visit Unit :=
  modify fun survey =>
    { survey with meanings := survey.meanings.setIfInBounds number (.scalar .text) }

/-- Whether a node means that the entries of other mappings are to be taken over. -/
def isMerge (survey : Survey) (number : Nat) : Bool :=
  survey.meaningAt number = .scalar .merge

def isEquals (survey : Survey) (number : Nat) : Bool :=
  survey.meaningAt number = .scalar .equals

/-- Whether a mapping has a key that does not stay as it is. -/
def hasSigns (survey : Survey) (number : Nat) : Bool :=
  (survey.entriesAt number).any fun entry => survey.isMerge entry.1 || survey.isEquals entry.1

mutual

/-- Goes through the entries of a mapping from a place on and takes over what they ask for; `taken`
was taken over so far. An entry that asks for others is gone by the time they are looked for. -/
def takeOverFrom (fuel number place : Nat) (taken : Array Entry) : Visit Unit := do
  match fuel with
  | 0 => throw .malformed
  | fuel + 1 =>
    match ((← get).entriesAt number)[place]? with
    | none => changeEntries number (taken ++ ·)
    | some (key, content) =>
      if (← get).isMerge key then
        changeEntries number (·.eraseIdxIfInBounds place)
        let more ← offered fuel content
        takeOverFrom fuel number place (taken ++ more)
      else
        if (← get).isEquals key then makeText key
        takeOverFrom fuel number (place + 1) taken

/-- The entries that a mapping or a list of mappings has to offer; of a list those of the last
mapping come first. -/
def offered (fuel number : Nat) : Visit (Array Entry) := do
  match fuel, (← get).contentAt number with
  | fuel + 1, .mapping _ =>
    if (← get).hasSigns number then takeOverFrom fuel number 0 #[]
    return (← get).entriesAt number
  | fuel + 1, .sequence items => offeredByAll fuel items
  | _, _ => throw .malformed

/-- The entries that mappings have to offer, those of the last first. -/
def offeredByAll (fuel : Nat) (items : List Nat) : Visit (Array Entry) := do
  match fuel, items with
  | _, [] => return #[]
  | 0, _ => throw .malformed
  | fuel + 1, number :: rest =>
    match (← get).contentAt number with
    | .mapping _ =>
      if (← get).hasSigns number then takeOverFrom fuel number 0 #[]
      let found := (← get).entriesAt number
      return (← offeredByAll fuel rest) ++ found
    | .scalar _ _ | .sequence _ => throw .malformed

end

/-- The number of steps within which a mapping has taken over what it asks for. -/
def stepLimit (survey : Survey) : Nat :=
  let size := survey.contents.foldl (fun size content =>
    match content with
    | .scalar _ _ => size
    | .sequence items => size + items.length + 1
    | .mapping entries => size + entries.size + 1) 1
  size * size

/-- Lets a mapping take over what its entries ask for. -/
def takeOver (number : Nat) : Visit Unit := do
  let survey ← get
  if survey.hasSigns number then takeOverFrom survey.stepLimit number 0 #[]

/-! ### Making -/

def note (number : Nat) (made : Made) : Visit Unit :=
  modify fun survey => { survey with made := survey.made.setIfInBounds number (some made) }

/-- Meets a node. What has parts is empty as yet and waits for its turn. -/
def meet (number : Nat) : Visit Unit := do
  let survey ← get
  if (survey.made.getD number none).isSome then return
  match survey.meaningAt number with
  | .scalar form => note number (← survey.scalarValue form number)
  | .part _ =>
    note number (.list [])
    modify fun survey => { survey with waiting := number :: survey.waiting }
  | .unknown => throw .malformed

/-- Meets a key, which must be a value without parts. -/
def meetKey (number : Nat) : Visit Unit := do
  meet number
  match (← get).made.getD number none with
  | some (.value _ _) => return
  | _ => throw .malformed

/-- Meets the entries of a mapping, with what it takes over, and answers them. -/
def meetEntries (number : Nat) : Visit (Array Entry) := do
  takeOver number
  let entries := (← get).entriesAt number
  entries.forM fun (key, content) => do
    meetKey key
    meet content
  return entries

def meetPair (number : Nat) : Visit Entry := do
  match ((← get).entriesAt number).toList with
  | [(key, content)] =>
    meet key
    meet content
    return (key, content)
  | _ => throw .malformed

/-- Meets what is in a node whose turn has come. -/
def fill (number : Nat) : Visit Unit := do
  let survey ← get
  match survey.meaningAt number, survey.contentAt number with
  | .part .sequence, .sequence items =>
    items.forM meet
    note number (.list items)
  | .part .pairs, .sequence items => note number (.pairs (← items.mapM meetPair))
  | .part .mapping, .mapping _ => note number (.map (← meetEntries number))
  | .part .keys, .mapping _ => note number (.keys (← meetEntries number))
  | _, _ => throw .malformed

/-- Fills what waits, then what has come to wait meanwhile, and so on. -/
def fillLevels : Nat → Visit Unit
  | 0 => return
  | fuel + 1 => do
    match (← get).waiting with
    | [] => return
    | waiting =>
      modify fun survey => { survey with waiting := [] }
      waiting.reverse.forM fill
      fillLevels fuel

end Survey

/-- What is made of the nodes of a document, by number. -/
def Document.made (document : Document) : Except Document.Fault (Array (Option Made)) := do
  let start : Survey :=
    { meanings := document.nodes.map Node.meaning
      contents := document.nodes.map Node.content
      made := Array.replicate document.nodes.size none
      waiting := [] }
  let looking : Survey.Visit Unit := do
    Survey.meet document.top
    Survey.fillLevels document.nodes.size
  return (← looking.run start).2.made

end Whittle.Value.Yaml
