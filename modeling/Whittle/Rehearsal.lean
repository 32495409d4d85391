import Whittle.Command
import Whittle.Grammar.Brackets
import Whittle.Symptom

/-!
Rehearsals: runs that start no process. The driver is a file of texts, and the bug
reproduces while each of them stands somewhere in the project. Files with concrete
trees are read by their brackets.
-/

namespace Whittle.Rehearsal

/-- Parsers that know brackets only. -/
def parsers : Parsers :=
  { concrete := fun name => Grammar.Brackets.parse (Grammar.Brackets.namesOf name)
    statements := fun _ => .error (.value "statements cannot be read in a rehearsal") }

/-- The host of a run whose driver cannot be started. -/
def absent : Host :=
  { parsers, launch := fun _ driver _ disk => { disk, start := .refused (.at .notFound driver) } }

def hostFor (settings : Settings) (disk : Disk) : Host :=
  let found : Except Failure Host := do
    let driver ← Settings.toPath settings.driver
    let data ← (disk.read driver).mapError .disk
    return Symptom.host parsers (Symptom.ofLines data)
  match found with
  | .ok host => host
  | .error _ => absent

def host (arguments : Arguments) (disk : Disk) (streamWish : Option String) : Host :=
  let chosen := match arguments.settings disk with
    | .ok settings => hostFor settings disk
    | .error _ => absent
  { chosen with streamWish }

/-- What a rehearsal leaves: the exit status, and the world. -/
def run (name : String) (words : List String) (streamWish : Option String) (world : World) :
    Nat × World :=
  match CommandLine.read words with
  | .error .help => (0, { world with printed := world.printed ++ CommandLine.usage })
  | .error refusal =>
    (refusal.status, { world with complained := world.complained ++ refusal.complaint })
  | .ok arguments =>
    match (Command.run (host arguments world.disk streamWish) name arguments).runOn world with
    | (.ok status, after) => (status.code, after)
    | (.error failure, after) =>
      (1, { after with complained := after.complained ++ failure.message ++ "\n" })

end Whittle.Rehearsal
