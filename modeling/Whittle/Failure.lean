import Whittle.Disk.Fault
import Whittle.Splice
import Whittle.Text.Utf8
import Whittle.Value.Convert
import Whittle.Value.Json.Reader

/-!
Failures and their wording. The failures of a reduction have a title, under which
a run reports them; the others are faults of what the run was given.
-/

namespace Whittle

/-- Why a project cannot be loaded. -/
inductive LoadFault where
  | unreadable (path cause : String)
  | unparsed (path grammar cause : String)
  | outside (name root : String)
  | notFile (name : String)
  | rootNotDirectory (root : String)
  | nothingToReduce (root : String)
deriving DecidableEq, Repr

/-- Why a working tree cannot be changed. -/
inductive WriteFault where
  | unwritable (path cause : String)
  | unremovable (path cause : String)
  | deviceFull
deriving DecidableEq, Repr

/-- Why a snapshot cannot be kept or dropped. -/
inductive ArchiveFault where
  | unwritable (directory cause : String)
  | unevictable (id : Int) (cause : String)
deriving DecidableEq, Repr

/-- Why a run cannot go on from a snapshot. -/
inductive ResumeFault where
  | unreadableRecord (path cause : String)
  | missingCopy (path file cause : String)
  | corruptedCopy (path file : String)
  | unreadableDirectory (directory cause : String)
  | noneValid (directory : String) (problems : List String)
  | unrestorable (id : Int) (root cause : String)
  | unparsed (id : Int) (cause : String)
  | notReproducing (id : Int) (outcome : String)
deriving DecidableEq, Repr

/-- What must never be and was met all the same. -/
inductive InvariantFault where
  | alreadyPending
  | leftPending
  | grew (before after : Int)
deriving DecidableEq, Repr

/-- Why settings are refused. -/
inductive SettingsFault where
  | sectionNotMapping (name : String)
  | unparsed (path cause : String)
  | notMapping
  | noDriver
  | originNotUnique
  | noDirectory
  | negativeInterval
  | retentionBelowOne
  | timeoutNotPositive
  | negativeThreshold
  | unknownPasses (names : List String)
deriving DecidableEq, Repr

/-- A number of seconds that is no moment. -/
inductive MomentFault where
  | outOfRange
  | notNumber
deriving DecidableEq, Repr

/-- Everything that can go wrong. -/
inductive Failure where
  | settings (fault : SettingsFault)
  | unparsed (reason : String) (offset : Option Int)
  | candidateUnparsed (path reason : String) (offset : Option Int)
  | load (fault : LoadFault)
  | write (fault : WriteFault)
  | archive (fault : ArchiveFault)
  | resume (fault : ResumeFault)
  | baseline (outcome : String)
  | invariant (fault : InvariantFault)
  | abort (streak : Nat) (last : String)
  | disk (fault : Disk.Fault)
  | value (fault : Value.Fault)
  | json (fault : Value.Json.Fault)
  | encoding (fault : Text.Utf8.Fault)
  | moment (fault : MomentFault)
  | calendar (fault : Calendar.Fault)
  | misfit (splice : Splice) (size : Nat)
  | untracked (path : Option String)
  | untrackedRemoval (path : String)
  | outOfRange
  | lacking (kind member : String)
  | noGrammarFor (path : String)
  | noGrammarNamed (name : String)
  | unknownPasses (names : List String)
  | noPasses
  | retention
  | namelessPath (path : String)
  | interrupted (reason : String)
  | crashed (reason : String)
deriving DecidableEq, Repr

def LoadFault.message : LoadFault → String
  | .unreadable path cause => s!"cannot read {path}: {cause}"
  | .unparsed path grammar cause => s!"{path} does not parse with the {grammar} grammar: {cause}"
  | .outside name root => s!"{name} is outside the project root {root}"
  | .notFile name => s!"{name} is not a file"
  | .rootNotDirectory root => s!"project root {root} is not a directory"
  | .nothingToReduce root => s!"no files to reduce under {root}"

def WriteFault.message : WriteFault → String
  | .unwritable path cause => s!"cannot write {path}: {cause}"
  | .unremovable path cause => s!"cannot remove {path}: {cause}"
  | .deviceFull => "no space left on device"

def ArchiveFault.message : ArchiveFault → String
  | .unwritable directory cause => s!"cannot write snapshot in {directory}: {cause}"
  | .unevictable id cause => s!"cannot evict snapshot {id}: {cause}"

def ResumeFault.message : ResumeFault → String
  | .unreadableRecord path cause => s!"snapshot {path} has no readable metadata: {cause}"
  | .missingCopy path file cause => s!"snapshot {path} is missing {file}: {cause}"
  | .corruptedCopy path file => s!"snapshot {path} has a corrupted copy of {file}"
  | .unreadableDirectory directory cause =>
    s!"snapshot directory {directory} is unreadable: {cause}"
  | .noneValid directory [] => s!"no valid snapshot in {directory}"
  | .noneValid directory problems =>
    s!"no valid snapshot in {directory} (" ++ "; ".intercalate problems ++ ")"
  | .unrestorable id root cause => s!"cannot restore snapshot {id} into {root}: {cause}"
  | .unparsed id cause => s!"snapshot {id} does not parse: {cause}"
  | .notReproducing id outcome => s!"snapshot {id} no longer reproduces ({outcome})"

def InvariantFault.message : InvariantFault → String
  | .alreadyPending => "a candidate is already materialised"
  | .leftPending => "candidate bytes left on disk after a trial"
  | .grew before after => s!"accepted state grew from {before} to {after} bytes"

def SettingsFault.message : SettingsFault → String
  | .sectionNotMapping name => s!"Config section '{name}' must be a mapping."
  | .unparsed path cause => s!"Cannot parse config file {path}: {cause}"
  | .notMapping => "Config file must contain a mapping at the top level."
  | .noDriver => "A driver executable is required."
  | .originNotUnique => "Exactly one of root_path or resume must be given."
  | .noDirectory => "snapshot.directory is required."
  | .negativeInterval => "snapshot.interval must not be negative."
  | .retentionBelowOne => "snapshot.retention must be at least 1."
  | .timeoutNotPositive => "oracle.timeout must be positive."
  | .negativeThreshold => "oracle.inconclusive_abort_threshold must not be negative."
  | .unknownPasses names => "Unknown reduction pass(es): " ++ ", ".intercalate names

/-- The wording of a number of seconds that is no moment. -/
def MomentFault.message : MomentFault → String
  | .outOfRange => "timestamp out of range for platform time_t"
  | .notNumber => "Invalid value NaN (not a number)"

def Splice.shown (splice : Splice) : String :=
  s!"ByteEdit(start={splice.start}, end={splice.stop}, replacement="
    ++ Text.quotedBytes splice.replacement ++ ")"

namespace Failure

def message : Failure → String
  | .settings fault => fault.message
  | .unparsed reason _ => reason
  | .candidateUnparsed path reason _ => s!"{path}: {reason}"
  | .load fault => fault.message
  | .write fault => fault.message
  | .archive fault => fault.message
  | .resume fault => fault.message
  | .baseline outcome => s!"the driver does not reproduce on the unmodified input ({outcome})"
  | .invariant fault => fault.message
  | .abort streak last => s!"{streak} consecutive inconclusive oracle runs (last: {last})"
  | .disk fault => fault.message
  | .value fault => fault.message
  | .json fault => fault.message
  | .encoding fault => fault.message
  | .moment fault => fault.message
  | .calendar fault => fault.message
  | .misfit splice size => "invalid edit " ++ splice.shown ++ s!" for buffer of {size} bytes"
  | .untracked (some path) => Text.quoted path
  | .untracked none => "None"
  | .untrackedRemoval path => Text.quoted s!"cannot remove untracked file {path}"
  | .outOfRange => "list index out of range"
  | .lacking kind member => s!"'{kind}' object has no attribute '{member}'"
  | .noGrammarFor path => s!"No adapter supports path: {path}"
  | .noGrammarNamed name => "No adapter named " ++ Text.quoted name
  | .unknownPasses names => "Unknown reduction pass(es): " ++ ", ".intercalate names
  | .noPasses => "at least one reduction pass is required"
  | .retention => "snapshot retention must be at least 1"
  | .namelessPath path => "PosixPath(" ++ Text.quoted path ++ ") has an empty name"
  | .interrupted reason => reason
  | .crashed reason => reason

/-- The title under which a run reports the failure, if it is one of a reduction. -/
def title? : Failure → Option String
  | .settings _ => some "ConfigError"
  | .unparsed _ _ => some "ParseError"
  | .candidateUnparsed _ _ _ => some "CandidateParseError"
  | .load _ => some "LoadError"
  | .write _ => some "FilesystemWriteError"
  | .archive _ => some "SnapshotWriteError"
  | .resume _ => some "ResumeError"
  | .baseline _ => some "BaselineVerificationError"
  | .invariant _ => some "InvariantViolation"
  | .abort _ _ => some "OracleAbortError"
  | _ => none

def system? : Failure → Option Disk.Fault
  | .disk fault => if fault.isSystem then some fault else none
  | _ => none

/-- Whether the failure only says that a snapshot's record cannot be read. -/
def spoilsRecord : Failure → Bool
  | .disk _ | .encoding _ => true
  | .json fault => !(fault.problem matches .tooDeep _)
  | .value fault =>
    match fault with
    | .noMember _ _ | .infinityToInteger | .integerTooLarge => false
    | _ => true
  | _ => false

end Failure
end Whittle
