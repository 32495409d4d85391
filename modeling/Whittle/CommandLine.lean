import Whittle.Settings

/-!
The command line: one driver and flags in any order. A flag may be shortened as
long as it stays unique, and its value follows as the next word or after an equals
sign. After two dashes every word stands for itself. What is wrong first, seen from
the left, is reported; a flag that is not unique comes before all else, words that
nobody takes come last.
-/

namespace Whittle

namespace CommandLine

/-! ### Flags -/

/-- A flag. -/
inductive Flag where
  | help
  | rootPath
  | resume
  | snapshotDirectory
  | snapshotInterval
  | snapshotRetention
  | timeout
  | threshold
  | file
  | config
deriving DecidableEq, Repr

namespace Flag

def all : List Flag := [
  .help, .rootPath, .resume, .snapshotDirectory, .snapshotInterval, .snapshotRetention, .timeout,
  .threshold, .file, .config]

def spellings : Flag → List String
  | .help => ["-h", "--help"]
  | .rootPath => ["--root-path"]
  | .resume => ["--resume"]
  | .snapshotDirectory => ["--snapshot-directory"]
  | .snapshotInterval => ["--snapshot-interval"]
  | .snapshotRetention => ["--snapshot-retention"]
  | .timeout => ["--oracle-timeout"]
  | .threshold => ["--inconclusive-abort-threshold"]
  | .file => ["--file"]
  | .config => ["--config"]

def title (flag : Flag) : String :=
  "/".intercalate flag.spellings

def takesValue : Flag → Bool
  | .help | .resume => false
  | _ => true

/-- Every spelling with its flag, in order. -/
def vocabulary : List (String × Flag) :=
  all.flatMap fun flag => flag.spellings.map fun spelling => (spelling, flag)

/-- How a flag stands in the summary of the command line. -/
def synopsis (flag : Flag) : String :=
  "[" ++ flag.spellings.headD "" ++ (if flag.takesValue then " VALUE]" else "]")

end Flag

def usage : String :=
  "usage: grammar-reduce " ++ " ".intercalate (Flag.all.map Flag.synopsis) ++ " [driver]\n"

/-! ### What is wrong with a command line -/

/-- Why a command line leads to no run. -/
inductive Refusal where
  | help
  | ambiguous (written : String) (matching : List String)
  | ignoredValue (flag : Flag) (value : String)
  | missingValue (flag : Flag)
  | notDecimal (flag : Flag) (value : String)
  | notInteger (flag : Flag) (value : String)
  | excluded (flag other : Flag)
  | unrecognized (words : List String)
deriving DecidableEq, Repr

namespace Refusal

/-- The wording of a refusal that concerns a flag. -/
def about (flag : Flag) (reason : String) : String :=
  "argument " ++ flag.title ++ ": " ++ reason

/-- The wording of a refusal; there is nothing to say to one who asks for help. -/
def message : Refusal → String
  | .help => ""
  | .ambiguous written matching =>
    "ambiguous option: " ++ written ++ " could match " ++ ", ".intercalate matching
  | .ignoredValue flag value => about flag ("ignored explicit argument " ++ Text.quoted value)
  | .missingValue flag => about flag "expected one argument"
  | .notDecimal flag value => about flag ("invalid float value: " ++ Text.quoted value)
  | .notInteger flag value => about flag ("invalid int value: " ++ Text.quoted value)
  | .excluded flag other => about flag ("not allowed with argument " ++ other.title)
  | .unrecognized words => "unrecognized arguments: " ++ " ".intercalate words

def status : Refusal → Nat
  | .help => 0
  | _ => 2

def complaint (refusal : Refusal) : String :=
  match refusal with
  | .help => ""
  | _ => "grammar-reduce: error: " ++ refusal.message ++ "\n"

end Refusal

/-! ### Words -/

/-- What a word is. -/
inductive Word where
  | plain
  | separator
  | flag (flag : Flag) (value : Option String)
  | unknown
deriving DecidableEq, Repr

/-- The part before the first equals sign, and the part after it. -/
def splitValue (written : String) : String × Option String :=
  match written.toList.span (· ≠ '=') with
  | (name, _ :: value) => (String.ofList name, some (String.ofList value))
  | (name, []) => (String.ofList name, none)

/-- The flags that a word with two dashes may be short for. -/
def shortFor (name : String) : List (String × Flag) :=
  Flag.vocabulary.filter fun entry => name.toList.isPrefixOf entry.1.toList

/-- Whether a word is a negative number, by its look. -/
def isNegativeNumber (written : String) : Bool :=
  let chars := written.toList
  let line := if chars.getLast? = some '\n' then chars.dropLast else chars
  let isDigit (char : Char) : Bool := (Text.decimalValue? char).isSome
  match line with
  | '-' :: body =>
    match body.dropWhile isDigit with
    | [] => !body.isEmpty
    | '.' :: fraction => !fraction.isEmpty && fraction.all isDigit
    | _ => false
  | _ => false

def classifyOther (written : String) : Word :=
  if isNegativeNumber written || written.toList.contains ' ' then .plain else .unknown

def classify (written : String) : Except Refusal Word :=
  let (name, value) := splitValue written
  match written.toList with
  | [] => .ok .plain
  | ['-'] => .ok .plain
  | first :: rest =>
    if first ≠ '-' then .ok .plain
    else if let some flag := Flag.vocabulary.lookup written then .ok (.flag flag none)
    else if let (some flag, some _) := (Flag.vocabulary.lookup name, value) then
      .ok (.flag flag value)
    else if rest.head? = some '-' then
      match shortFor name with
      | [] => .ok (classifyOther written)
      | [(_, flag)] => .ok (.flag flag value)
      | matching => .error (.ambiguous written (matching.map Prod.fst))
    else if rest.head? = some 'h' then .ok (.flag .help (some (String.ofList (rest.drop 1))))
    else .ok (classifyOther written)

/-- The words with what they are; after the separator every word is plain. -/
def classifyAll : List String → Except Refusal (List (String × Word))
  | [] => .ok []
  | written :: rest =>
    if written = "--" then .ok ((written, .separator) :: rest.map fun word => (word, .plain))
    else do
      let word ← classify written
      return (written, word) :: (← classifyAll rest)

end CommandLine

/-! ### Arguments -/

/-- The arguments of a command line. -/
structure Arguments where
  driver : Value := .null
  rootPath : Value := .null
  resume : Bool := false
  snapshotDirectory : Value := .null
  snapshotInterval : Value := .null
  snapshotRetention : Value := .null
  timeout : Value := .null
  threshold : Value := .null
  files : List Value := []
  config : Value := .null
deriving Repr

namespace CommandLine

/-- What a flag makes of its value; two dashes after an equals sign are an empty list, whatever the
flag. -/
def convert (flag : Flag) (value : String) : Except Refusal Value :=
  if value = "--" then .ok (.list [])
  else match flag with
    | .snapshotInterval | .timeout =>
      match Decimal.readDecimal value with
      | some double => .ok (.float double)
      | none => .error (.notDecimal flag value)
    | .snapshotRetention | .threshold =>
      match Decimal.readInteger value with
      | .integer whole => .ok (.int whole)
      | _ => .error (.notInteger flag value)
    | _ => .ok (.text value)

/-- The arguments with the value of a flag; a project is either begun or resumed. -/
def store (arguments : Arguments) (flag : Flag) (value : Value) : Except Refusal Arguments :=
  match flag with
  | .help => .error .help
  | .rootPath =>
    if arguments.resume then .error (.excluded .rootPath .resume)
    else .ok { arguments with rootPath := value }
  | .resume =>
    if !arguments.rootPath.isNull then .error (.excluded .resume .rootPath)
    else .ok { arguments with resume := true }
  | .snapshotDirectory => .ok { arguments with snapshotDirectory := value }
  | .snapshotInterval => .ok { arguments with snapshotInterval := value }
  | .snapshotRetention => .ok { arguments with snapshotRetention := value }
  | .timeout => .ok { arguments with timeout := value }
  | .threshold => .ok { arguments with threshold := value }
  | .file => .ok { arguments with files := arguments.files ++ [value] }
  | .config => .ok { arguments with config := value }

/-- The arguments with a flag whose value follows an equals sign. Letters after the short flag for
help are short flags too. -/
def storeGiven (arguments : Arguments) (flag : Flag) (short : Bool) (value : String) :
    Except Refusal Arguments := do
  if flag.takesValue then store arguments flag (← convert flag value)
  else if short && value ≠ "" then
    match value.toList.dropWhile (· = 'h') with
    | [] => store arguments flag .null
    | rest => .error (.ignoredValue flag (String.ofList rest))
  else .error (.ignoredValue flag value)

def isShort (written : String) : Bool :=
  written.toList[1]? ≠ some '-'

/-- Goes through the words. `taken` says whether the driver is known; `extras` are the words that
nobody took. -/
def readWords (arguments : Arguments) (taken : Bool) (extras : List String) :
    List (String × Word) → Except Refusal Arguments
  | [] => if extras.isEmpty then .ok arguments else .error (.unrecognized extras)
  | (written, .plain) :: rest =>
    if taken then readWords arguments true (extras ++ [written]) rest
    else
      let arguments := { arguments with driver := .text written }
      match rest with
      | (_, .separator) :: others => readWords arguments true extras others
      | others => readWords arguments true extras others
  | (written, .separator) :: rest =>
    if taken then readWords arguments true (extras ++ [written]) rest
    else readWords arguments false extras rest
  | (written, .unknown) :: rest => readWords arguments taken (extras ++ [written]) rest
  | (written, .flag flag (some value)) :: rest => do
    readWords (← storeGiven arguments flag (isShort written) value) taken extras rest
  | (_, .flag flag none) :: rest =>
    if flag.takesValue then
      match rest with
      | (value, .plain) :: others => do
        readWords (← store arguments flag (← convert flag value)) taken extras others
      | _ => .error (.missingValue flag)
    else do readWords (← store arguments flag .null) taken extras rest

def read (words : List String) : Except Refusal Arguments := do
  readWords {} false [] (← classifyAll words)

end CommandLine

namespace Arguments

def toValue (arguments : Arguments) : Value :=
  Value.record [
    ("driver", arguments.driver),
    ("root_path", arguments.rootPath),
    ("resume", if arguments.resume then .bool true else .null),
    ("snapshot_directory", arguments.snapshotDirectory),
    ("snapshot_interval", arguments.snapshotInterval),
    ("snapshot_retention", arguments.snapshotRetention),
    ("oracle_timeout", arguments.timeout),
    ("inconclusive_abort_threshold", arguments.threshold),
    ("files", if arguments.files.isEmpty then .null else .list arguments.files),
    ("config", arguments.config)]

/-- The origin that the arguments choose, whatever the settings file says. -/
def origin (arguments : Arguments) : List (String × Value) :=
  if !arguments.rootPath.isNull then
    [("root_path", arguments.rootPath), ("resume", .bool false)]
  else if arguments.resume then [("root_path", .text ""), ("resume", .bool true)]
  else []

/-- The settings that the arguments lead to, checked. -/
def settings (arguments : Arguments) (disk : Disk) : Except Failure Settings := do
  let loaded ← Settings.load disk arguments.config
  let files := if arguments.files.isEmpty then .null else .list arguments.files
  let judging := Value.record [
    ("timeout", arguments.timeout),
    ("inconclusive_abort_threshold", arguments.threshold)]
  let archiving := Value.record [
    ("directory", arguments.snapshotDirectory),
    ("interval", arguments.snapshotInterval),
    ("retention", arguments.snapshotRetention)]
  let changes := [("driver", arguments.driver), ("files", files)] ++ arguments.origin ++
    [("oracle", judging), ("snapshot", archiving)]
  let settings ← loaded.override (changes.map fun change => (.text change.1, change.2))
  settings.check
  return settings

end Arguments
end Whittle
