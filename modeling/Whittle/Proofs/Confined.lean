import Whittle.Proofs.Worktree
import Whittle.Reduction

/-!
What can go wrong in a step. A failure of the reduction has a title, and each step has only a few
titles to fail under: writing files fails under one, snapshots under another, and logging under none.
That is said of computations (`Confined`) and of steps (`Step.Confined`), and followed through their
text, together with a property of the disk that what a run does to it does not spoil
(`Disk.IsLasting`).
-/

namespace Whittle

open Failure

open Disk

open Step

variable {titles more : List String} {failure : Failure} {title : String} {α β : Type}
  {result : Except Failure α} {condition : Prop} {property : Disk → Prop} {allowed : Path → Prop}
  {directory : Path}

def Failure.IsAmong (titles : List String) (failure : Failure) : Prop :=
  ∀ title, failure.title? = some title → title ∈ titles

def Failure.ordinaryTitles : List String :=
  ["ConfigError", "ParseError", "CandidateParseError", "LoadError", "FilesystemWriteError",
    "SnapshotWriteError", "BaselineVerificationError", "InvariantViolation", "OracleAbortError"]

namespace Failure

theorem isAmong_of_none (untitled : failure.title? = none) : failure.IsAmong titles := by
  intro title is
  rw [untitled] at is
  cases is

theorem isAmong_of_some (is : failure.title? = some title)
    (listed : title ∈ titles) : failure.IsAmong titles := by
  intro other same
  cases is.symm.trans same
  exact listed

theorem IsAmong.mono (among : failure.IsAmong titles) (all : titles ⊆ more) : failure.IsAmong more :=
  fun title is => all (among title is)

theorem IsAmong.title?_eq_none (among : failure.IsAmong []) : failure.title? = none := by
  cases is : failure.title? with
  | none => rfl
  | some title => cases among title is

theorem IsAmong.title?_of_ne (among : failure.IsAmong [title])
    (other : failure.title? ≠ some title) : failure.title? = none := by
  cases is : failure.title? with
  | none => rfl
  | some own => exact absurd (List.mem_singleton.mp (among own is) ▸ is) other

theorem title?_eq_parse_iff :
    failure.title? = some "ParseError" ↔ ∃ reason offset, failure = .unparsed reason offset := by
  cases failure <;> simp [title?]

theorem title?_eq_candidate_iff : failure.title? = some "CandidateParseError" ↔
    ∃ path reason offset, failure = .candidateUnparsed path reason offset := by
  cases failure <;> simp [title?]

theorem title?_eq_load_iff : failure.title? = some "LoadError" ↔ ∃ fault, failure = .load fault := by
  cases failure <;> simp [title?]

theorem title?_eq_write_iff :
    failure.title? = some "FilesystemWriteError" ↔ ∃ fault, failure = .write fault := by
  cases failure <;> simp [title?]

theorem title?_eq_archive_iff :
    failure.title? = some "SnapshotWriteError" ↔ ∃ fault, failure = .archive fault := by
  cases failure <;> simp [title?]

end Failure

/-! ### Computations -/

/-- A computation fails under some titles only. -/
def Confined {α : Type} (titles : List String) (result : Except Failure α) : Prop :=
  ∀ failure, result = .error failure → failure.IsAmong titles

section Computations

variable {ε : Type}

theorem Confined.of_eq (confined : Confined titles result)
    (failed : result = .error failure) : Confined titles (.error failure : Except Failure β) := by
  rintro _ ⟨⟩
  exact confined failure failed

@[simp] theorem confined_ok (value : α) : Confined titles (.ok value) :=
  fun _ same => by cases same

@[simp] theorem confined_pure (value : α) : Confined titles (pure value : Except Failure α) :=
  confined_ok value

@[simp] theorem confined_error_iff :
    Confined titles (.error failure : Except Failure α) ↔ ∀ title ∈ failure.title?, title ∈ titles := by
  simp [Confined, Failure.IsAmong]

@[simp] theorem confined_throw_iff :
    Confined titles (throw failure : Except Failure α) ↔ ∀ title ∈ failure.title?, title ∈ titles :=
  confined_error_iff

@[simp] theorem confined_bind_iff {first : Except Failure α} {next : α → Except Failure β} :
    Confined titles (first >>= next) ↔
      Confined titles first ∧ ∀ value, first = .ok value → Confined titles (next value) := by
  cases first <;> simp [bind, Except.bind]

@[simp] theorem confined_ite_iff [Decidable condition] {yes no : Except Failure α} :
    Confined titles (if condition then yes else no) ↔
      (condition → Confined titles yes) ∧ (¬ condition → Confined titles no) := by
  split <;> simp [*]

@[simp] theorem confined_map_iff {change : α → β} :
    Confined titles (change <$> result) ↔ Confined titles result := by
  cases result <;> simp [Functor.map, Except.map]

theorem confined_mapError {result : Except ε α} {change : ε → Failure}
    (untitled : ∀ fault, (change fault).title? = none) : Confined titles (result.mapError change) := by
  cases result <;> simp [untitled]

@[simp] theorem confined_mapError_value {result : Except Value.Fault α} :
    Confined titles (result.mapError .value) :=
  confined_mapError fun _ => rfl

@[simp] theorem confined_mapError_disk {result : Except Disk.Fault α} :
    Confined titles (result.mapError .disk) :=
  confined_mapError fun _ => rfl

@[simp] theorem confined_mapM {ask : α → Except Failure β} (all : ∀ item, Confined titles (ask item))
    (items : List α) : Confined titles (items.mapM ask) := by
  induction items with
  | nil => simp
  | cons item rest ih => simp [all, ih]

@[simp] theorem confined_filterM {ask : α → Except Failure Bool}
    (all : ∀ item, Confined titles (ask item)) (items : List α) :
    Confined titles (items.filterM ask) := by
  have aux : ∀ items kept : List α, Confined titles (items.filterAuxM ask kept) := by
    intro items
    induction items with
    | nil => simp [List.filterAuxM]
    | cons item rest ih => simp [List.filterAuxM, all, ih]
  simp [List.filterM, aux]

end Computations

/-! ### Parsing -/

namespace Grammar

namespace Statements

variable (layout : Layout)

@[simp] theorem confined_lineStart (line : Int) : Confined titles (layout.lineStart line) := by
  unfold Layout.lineStart
  split <;> simp [Failure.title?]

@[simp] theorem confined_offset (mark : Mark) : Confined titles (layout.offset mark) := by
  simp [Layout.offset]

@[simp] theorem confined_leastStart (least : Int) (marks : List Mark) :
    Confined titles (layout.leastStart least marks) := by
  have start : ∀ mark, Confined titles (layout.decoratorStart mark) := by
    intro mark
    simp only [Layout.decoratorStart, confined_bind_iff, confined_offset, confined_lineStart, true_and]
    intros
    split <;> simp
  induction marks generalizing least with
  | nil => simp [Layout.leastStart]
  | cons mark rest ih => simp [Layout.leastStart, start, ih]

@[simp] theorem confined_startOf (statement : Statement) : Confined titles (layout.startOf statement) := by
  unfold Layout.startOf
  split <;> simp [Failure.title?]

@[simp] theorem confined_stopOf (statement : Statement) : Confined titles (layout.stopOf statement) := by
  unfold Layout.stopOf
  split <;> simp [Failure.title?]

@[simp] theorem confined_stopOfLast (statements : List Statement) :
    Confined titles (layout.stopOfLast statements) := by
  unfold Layout.stopOfLast
  split <;> simp [Failure.title?]

@[simp] theorem confined_stopOfClause (clause : Statement) :
    Confined titles (layout.stopOfClause clause) := by
  unfold Layout.stopOfClause
  split <;> simp [Failure.title?]

@[simp] theorem confined_clauseOffset (clause : Statement) :
    Confined titles (layout.clauseOffset clause) := by
  have pattern : Confined titles (patternOf clause) := by
    unfold patternOf
    split <;> simp [Failure.title?]
  unfold Layout.clauseOffset
  split
  · simp
  · simp only [confined_bind_iff, pattern, confined_offset, true_and]
    intros
    split <;> simp

mutual

theorem confined_addStatement (tree : Tree) (parent : Nat) :
    ∀ statement, Confined titles (addStatement layout tree parent statement)
  | .mk kind span decorators pattern bodiless body handlers cases orElse last => by
    simp [addStatement, confined_addSuite, confined_addGroup]

theorem confined_addStatements (tree : Tree) (parent : Nat) :
    ∀ statements, Confined titles (addStatements layout tree parent statements)
  | [] => by simp [addStatements]
  | statement :: rest => by simp [addStatements, confined_addStatement, confined_addStatements]

theorem confined_addSuite (tree : Tree) (parent : Nat) :
    ∀ body, Confined titles (addSuite layout tree parent body)
  | [] => by simp [addSuite]
  | first :: rest => by simp [addSuite, confined_addStatement, confined_addStatements]

theorem confined_addGroup (tree : Tree) (parent : Nat) (kind : String) :
    ∀ clauses, Confined titles (addGroup layout tree parent kind clauses)
  | [] => by simp [addGroup]
  | first :: rest => by
    simp [addGroup, confined_addClause, confined_addClauses]

theorem confined_addClause (tree : Tree) (parent : Nat) :
    ∀ clause, Confined titles (addClause layout tree parent clause)
  | .mk kind span decorators pattern bodiless body handlers cases orElse last => by
    simp [addClause, confined_addSuite, confined_addGroup]

theorem confined_addClauses (tree : Tree) (parent : Nat) :
    ∀ clauses, Confined titles (addClauses layout tree parent clauses)
  | [] => by simp [addClauses]
  | clause :: rest => by simp [addClauses, confined_addClause, confined_addClauses]

end

end Statements
/-- Parsing fails as such, or for what the parsers have left out. -/
theorem confined_parse (parsers : Parsers) (grammar : Grammar) (data : Bytes) :
    Confined ["ParseError"] (grammar.parse parsers data) := by
  unfold Grammar.parse
  split
  · simp
  · simp [Concrete.parse, Failure.title?]
  · unfold Statements.parse
    split <;> simp [Statements.toTree, Statements.confined_addStatements, Failure.title?]

end Grammar

/-! ### Projects -/

namespace Project

variable {project : Project}

@[simp] theorem confined_file (path : String) : Confined titles (project.file path) := by
  unfold Project.file
  split <;> simp [Failure.title?]

@[simp] theorem confined_grammarOf (path : String) : Confined titles (project.grammarOf path) := by
  have grammar : ∀ name, Confined titles (project.registry.get name) := by
    intro name
    unfold Grammar.Registry.get
    split <;> simp [Failure.title?]
  simp [grammarOf, grammar]

/-- Where parsing is not told as such, it fails for what the parsers have left out. -/
theorem title?_of_parse {parsers : Parsers} {grammar : Grammar} {data : Bytes}
    (failed : grammar.parse parsers data = .error failure)
    (other : ∀ reason offset, failure ≠ .unparsed reason offset) : failure.title? = none := by
  refine (Grammar.confined_parse parsers grammar data failure failed).title?_of_ne fun is => ?_
  obtain ⟨reason, offset, same⟩ := Failure.title?_eq_parse_iff.mp is
  exact other reason offset same

/-- Applying a candidate fails as a reduction only if the candidate does not parse. -/
theorem confined_apply (parsers : Parsers) (candidate : Candidate) :
    Confined ["CandidateParseError"] (project.apply parsers candidate) := by
  have reparsed : ∀ path data,
      Confined ["CandidateParseError"] (project.reparse parsers path data) := by
    intro path data
    simp only [reparse, confined_bind_iff, confined_grammarOf, true_and]
    intro grammar _
    split
    · simp [Failure.title?]
    · next other =>
      intro failure failed
      refine isAmong_of_none (title?_of_parse failed fun reason offset same => ?_)
      exact other reason offset (same ▸ failed)
  have spliced : Confined ["CandidateParseError"] (project.spliced parsers candidate) := by
    unfold Project.spliced
    have applied : ∀ data, Confined ["CandidateParseError"] (candidate.spliceInto data) :=
      fun data => confined_mapError fun _ => rfl
    split <;> simp [applied, reparsed]
  simp only [apply, confined_bind_iff, spliced, true_and]
  intro change _
  split <;> simp [Failure.title?]

/-- Making a project of contents fails as loading does. -/
theorem confined_ofContents (parsers : Parsers) (registry : Grammar.Registry) (root : Path)
    (contents : Listing Bytes) (removed : List String) :
    Confined ["LoadError"] (ofContents parsers registry root contents removed) := by
  have parsed : ∀ path data, Confined ["LoadError"] (parseFile parsers registry path data) := by
    intro path data
    have selected : Confined ["LoadError"] (registry.select path) := by
      unfold Grammar.Registry.select
      split
      · simp
      · split <;> simp [Failure.title?]
    simp only [parseFile, confined_bind_iff, selected, true_and]
    intro grammar _
    split
    · simp
    · simp [Failure.title?]
    · next other failed => simp [title?_of_parse failed other]
  simp [ofContents, parsed]

theorem confined_load (parsers : Parsers) (registry : Grammar.Registry) (disk : Disk) (root : Path)
    (paths : List String) : Confined ["LoadError"] (load parsers registry disk root paths) := by
  have read : Confined ["LoadError"] (readAll disk root paths) := by
    refine confined_mapM (fun path => ?_) paths
    split <;> simp [Failure.title?]
  simp [load, read, confined_ofContents]

end Project

/-- Passes do not fail as a reduction does. -/
theorem Pass.confined_proposals (pass : Pass) (project : Project)
    (path : Option String) (index : Int) (position : Option (List Int)) :
    Confined titles (pass.proposals project path index position) := by
  have groups : ∀ groups first, Confined titles (groupsFrom groups first) := by
    intro groups first
    unfold groupsFrom
    split
    · simp
    · split <;> simp [Failure.title?]
  unfold proposals
  split <;> simp [blockRemovals, simplifications, lineRemovals, blankRemovals, groups, Failure.title?]

/-- Where to begin at a target is not told if the bookmark has no proper path. -/
theorem Session.confined_positionAt (resume : Option Bookmark)
    (path : Option String) : Confined titles (positionAt resume path) := by
  unfold positionAt
  split
  · simp
  · simp
  · split <;> simp [Failure.title?]

/-! ### Choosing files -/

namespace Discovery

@[simp] theorem confined_matchesAny (name : String) (patterns : Value) :
    Confined titles (matchesAny name patterns) := by
  have some : ∀ patterns, Confined titles (matchesSome name patterns) := by
    intro patterns
    induction patterns with
    | nil => simp [matchesSome]
    | cons pattern rest ih => cases pattern <;> simp [matchesSome, ih, Failure.title?]
  simp [matchesAny, some]

theorem confined_find (disk : Disk) (registry : Grammar.Registry) (root : Path) (query : Query) :
    Confined titles (find disk registry root query) := by
  have resolved : ∀ path, Confined titles (resolve disk path) := fun path => by simp [resolve]
  simp [find, wanted, resolved]

theorem confined_normalize (disk : Disk) (root : Path) (files : List Value) :
    Confined ["LoadError"] (normalize disk root files) := by
  have named : ∀ root file, Confined ["LoadError"] (nameBelow disk root file) :=
    fun root file => by simp [nameBelow, resolve, Failure.title?]
  simp [normalize, resolve, named]

end Discovery

theorem Engine.confined_chooseFiles (engine : Engine) (root : Path) (files : List Value) :
    Confined ["LoadError"] (engine.chooseFiles root files) := by
  simp [chooseFiles, Discovery.confined_find, Discovery.confined_normalize, Failure.title?]

/-! ### Steps -/

namespace Step

variable {σ τ : Type} {property : σ → Prop} {step : Step σ α}

/-- From a state with a property a step leaves one, and it fails under some titles only. -/
def Confined (step : Step σ α) (titles : List String) (property : σ → Prop) : Prop :=
  ∀ state, property state → step.Ends (fun _ => property)
    (fun failure after => failure.IsAmong titles ∧ property after) state

theorem Confined.keeps (confined : step.Confined titles property) : step.Keeps property :=
  fun state so => (confined state so).imp (fun _ _ => id) fun _ _ ends => ends.2

theorem Keeps.confined (keeps : step.Keeps property) :
    step.Confined ("ResumeError" :: Failure.ordinaryTitles) property :=
  fun state so => (keeps state so).imp (fun _ _ => id) fun failure _ ends =>
    ⟨by cases failure <;> simp [Failure.IsAmong, Failure.title?, Failure.ordinaryTitles], ends⟩

theorem confined_pure (value : α) : (pure value : Step σ α).Confined titles property :=
  fun _ so => so

theorem confined_throw (among : failure.IsAmong titles) :
    (throw failure : Step σ α).Confined titles property :=
  fun _ so => ⟨among, so⟩

theorem confined_get : (get : Step σ σ).Confined titles property :=
  fun _ so => so

theorem confined_modify {change : σ → σ} (so : ∀ state, property state → property (change state)) :
    (modify change : Step σ PUnit).Confined titles property :=
  so

theorem confined_lift (confined : Whittle.Confined titles result) :
    (lift result : Step σ α).Confined titles property :=
  fun _ so => (ends_lift result).mpr ⟨fun _ _ => so, fun failure same => ⟨confined failure same, so⟩⟩

theorem Confined.bind {next : α → Step σ β} (first : step.Confined titles property)
    (then' : ∀ value, (next value).Confined titles property) :
    (step >>= next).Confined titles property :=
  fun state so => (first state so).bind (fun value after => then' value after) fun _ _ => id

theorem Confined.ite [Decidable condition] {yes no : Step σ α}
    (whenSo : yes.Confined titles property) (whenNot : no.Confined titles property) :
    (if condition then yes else no).Confined titles property := by
  split
  · exact whenSo
  · exact whenNot

theorem Confined.when [Decidable condition] {first : Step σ PUnit}
    {next : PUnit → Step σ α} (whenSo : first.Confined titles property)
    (then' : ∀ value, (next value).Confined titles property) :
    (if condition then first >>= next else next ⟨⟩).Confined titles property :=
  (whenSo.bind then').ite (then' ⟨⟩)

theorem Confined.attempt {next : Except Failure α → Step σ β}
    (confined : step.Confined titles property)
    (well : ∀ value, (next (.ok value)).Confined titles property)
    (ill : ∀ failure, failure.IsAmong titles → (next (.error failure)).Confined titles property) :
    (attempt step >>= next).Confined titles property := by
  intro state so
  rw [ends_bind, ends_attempt]
  exact (confined state so).imp (fun value after => well value after)
    fun failure after ends => ill failure ends.1 after ends.2

theorem Confined.within {inner : τ → Prop} {part : σ → τ} {put : τ → σ → σ} {step : Step τ α}
    (confined : step.Confined titles inner) (down : ∀ state, property state → inner (part state))
    (up : ∀ after state, property state → inner after → property (put after state)) :
    (within part put step).Confined titles property :=
  fun state so => (ends_within part put step).mpr
    ((confined (part state) (down state so)).imp (fun _ after => up after state so)
      fun _ after ends => ⟨ends.1, up after state so ends.2⟩)

end Step

/-! ### Disks -/

namespace Disk

/-- A property of disks that what a run does at some paths does not spoil. -/
structure LastsAt (allowed : Path → Prop) (property : Disk → Prop) : Prop where
  alter : ∀ {disk after : Disk} {path : Path} {change : Contents → Contents}, allowed path →
    property disk → disk.alter path change = .ok after → property after
  makeDirs : ∀ {disk : Disk} {path : Path} (existing : Bool), allowed path → property disk →
    property (disk.makeDirs existing path).2
  removeTree : ∀ {disk after : Disk} {path : Path}, allowed path → property disk →
    disk.removeTree path = .ok after → property after
  rename : ∀ {disk after : Disk} {path target : Path}, allowed path → allowed target →
    property disk → disk.rename path target = .ok after → property after

/-- A property of disks that what a run does to the disk does not spoil. -/
structure IsLasting (property : Disk → Prop) : Prop extends LastsAt (fun _ => True) property where
  setMode : ∀ {disk after : Disk} {path : Path} {mode : Nat}, property disk →
    disk.setMode path mode = .ok after → property after
  removeIfPresent : ∀ {disk after : Disk} {path : Path}, property disk →
    disk.removeIfPresent path = .ok after → property after

theorem isLasting_true : IsLasting fun _ => True where
  alter _ _ _ := trivial
  makeDirs _ _ _ := trivial
  removeTree _ _ _ := trivial
  rename _ _ _ _ := trivial
  setMode _ _ := trivial
  removeIfPresent _ _ := trivial

theorem confined_change {operation : Disk → Except Fault Disk}
    (keeps : ∀ disk after, property disk → operation disk = .ok after → property after) :
    (change operation).Confined titles property := by
  intro disk so
  rw [ends_change]
  exact ⟨fun after done => keeps disk after so done, fun _ _ => ⟨isAmong_of_none rfl, so⟩⟩

theorem confined_ask {question : Disk → Except Fault α} :
    (ask question).Confined titles property := by
  intro disk so
  rw [ends_ask]
  exact ⟨fun _ _ => so, fun _ _ => ⟨isAmong_of_none rfl, so⟩⟩

section Lasting

variable (lasts : LastsAt allowed property) {path : Path} (may : allowed path)

include lasts may

theorem confined_ensureDir (existing : Bool) : (ensureDir existing path).Confined titles property := by
  intro disk so
  have made := lasts.makeDirs existing may so
  change Step.Outcome _ _ ((disk.makeDirs existing path).1.mapError .disk,
    (disk.makeDirs existing path).2)
  generalize disk.makeDirs existing path = result at made
  rcases result with ⟨fault | _, after⟩
  · exact ⟨isAmong_of_none rfl, made⟩
  · exact made

theorem confined_alter (edit : Contents → Contents) :
    (change (·.alter path edit)).Confined titles property :=
  confined_change fun _ _ => lasts.alter may

theorem confined_removeTree : (change (·.removeTree path)).Confined titles property :=
  confined_change fun _ _ => lasts.removeTree may

theorem confined_rename {target : Path} (may' : allowed target) :
    (change (·.rename path target)).Confined titles property :=
  confined_change fun _ _ => lasts.rename may may'

omit lasts may in
theorem confined_removeIfPresent (lasting : IsLasting property) (path : Path) :
    (change (·.removeIfPresent path)).Confined titles property :=
  confined_change fun _ _ => lasting.removeIfPresent

end Lasting
end Disk

/-! ### Journals -/

theorem confined_writeMoment (seconds : Float) : Confined titles (Moment.write seconds) := by
  unfold Moment.write
  have checked : ∀ day : Day, Confined titles (day.check.mapError .calendar) :=
    fun _ => confined_mapError fun _ => rfl
  split <;> simp [Failure.title?, checked]

/-- Logging keeps what appending to the event log keeps, whatever is printed. What cannot be logged is no
failure of the reduction. -/
theorem Journal.confined_event {property : World → Prop} {journal : Journal}
    (appends : ∀ bytes : Bytes,
      (World.onDisk (Disk.change (·.append journal.eventFile bytes))).Confined titles property)
    (prints : ∀ world printed complained, property world →
      property { world with printed, complained })
    (kind : String) (data : List (String × Value)) :
    (journal.event kind data).Confined titles property := by
  have prints : ∀ problem text, (print problem text).Confined titles property := by
    intro problem text
    refine confined_modify fun world so => ?_
    split
    · exact prints world _ _ so
    · exact prints world _ _ so
  refine confined_get.bind fun world => ?_
  refine (confined_lift (confined_writeMoment _)).bind fun moment => ?_
  cases line world.clock moment kind data with
  | ok text => exact (appends _).bind fun _ => (prints _ _).ite (Step.confined_pure _)
  | error fault =>
    refine (appends _).bind fun _ => Step.Confined.bind ?_ fun _ => (prints _ _).ite (Step.confined_pure _)
    exact confined_throw (isAmong_of_none rfl)

/-! ### Working trees -/

namespace Worktree

variable (lasting : Disk.IsLasting property) (root : Path)

theorem isAmong_write (fault : WriteFault) :
    (Failure.write fault).IsAmong ["FilesystemWriteError"] :=
  isAmong_of_some rfl List.mem_cons_self

include lasting

theorem confined_storeFile (path : String) (data : Bytes) :
    (storeFile root path data).Confined ["FilesystemWriteError"] property := by
  have replaced : ∀ target temporary,
      (replaceFile target temporary data).Confined ["FilesystemWriteError"] property := by
    intro target temporary
    refine (confined_ensureDir lasting.toLastsAt trivial _).bind fun _ =>
      (confined_alter lasting.toLastsAt trivial _).bind fun _ => confined_ask.bind fun there => ?_
    have moved : (Disk.change (·.rename temporary target)).Confined ["FilesystemWriteError"] property :=
      confined_rename lasting.toLastsAt trivial trivial
    refine Step.Confined.ite (confined_ask.bind fun mode => ?_) moved
    exact (confined_change fun _ _ => lasting.setMode).bind fun _ => moved
  refine Step.Confined.ite (confined_throw (isAmong_of_none rfl))
    ((replaced _ _).attempt Step.confined_pure fun failure among => ?_)
  dsimp only
  split
  · have thrown : ∀ fault, (throw (.write fault) : Step Disk Unit).Confined
        ["FilesystemWriteError"] property := fun fault => confined_throw (isAmong_write fault)
    exact Step.Confined.attempt (confined_removeIfPresent lasting _) (fun _ => thrown _)
      fun _ _ => thrown _
  · exact confined_throw among

theorem confined_removeFile (path : String) :
    (removeFile root path).Confined ["FilesystemWriteError"] property := by
  refine Step.Confined.attempt (confined_removeIfPresent lasting _) Step.confined_pure ?_
  intro failure among
  dsimp only
  split
  · exact confined_throw (isAmong_write _)
  · exact confined_throw among

theorem confined_putFile (path : String) (wanted : Option Bytes) :
    (putFile root path wanted).Confined ["FilesystemWriteError"] property := by
  cases wanted with
  | none => exact confined_removeFile lasting root path
  | some data => exact confined_storeFile lasting root path data

theorem confined_putFiles (files : List (String × Option Bytes)) :
    (putFiles root files).Confined ["FilesystemWriteError"] property := by
  induction files with
  | nil => exact Step.confined_pure _
  | cons file rest ih =>
    rw [putFiles_cons]
    exact (confined_putFile lasting root file.1 file.2).bind fun _ => ih

theorem confined_removeAll (removed : List Value) :
    (removeAll root removed).Confined ["FilesystemWriteError"] property := by
  induction removed with
  | nil => exact Step.confined_pure _
  | cons value rest ih =>
    refine (confined_lift ?_).bind fun path =>
      (confined_removeFile lasting root path).bind fun _ => ih
    rw [removedPath.eq_def]
    split <;> simp [Failure.title?]

omit lasting in
theorem confined_onDisk {step : Step Disk α} (confined : step.Confined titles property) :
    (onDisk step).Confined titles fun site => property site.2 :=
  confined.within (fun _ so => so) fun _ _ _ so => so

theorem confined_install (contents : Listing Bytes) (removed : List Value) :
    (install contents removed).Confined ["FilesystemWriteError"] fun site => property site.2 := by
  refine confined_get.bind fun site =>
    (confined_onDisk (confined_putFiles lasting _ _)).bind fun _ => ?_
  refine (confined_onDisk (confined_removeAll lasting _ _)).bind fun _ => ?_
  exact confined_modify fun _ so => so

theorem confined_restore (accepted : Listing Bytes) :
    (restore accepted).Confined ["FilesystemWriteError"] fun site => property site.2 := by
  refine confined_get.bind fun site =>
    (confined_onDisk (confined_putFiles lasting _ _)).bind fun _ => ?_
  exact confined_modify fun _ so => so

end Worktree

/-! ### Archives -/

namespace Archive

theorem confined_ids (archive : Archive) (disk : Disk) : Confined titles (archive.ids disk) := by
  simp [ids, numbersIn]

theorem confined_readRecord (disk : Disk) (path : Path) :
    Confined titles (readRecord disk path) := by
  simp only [readRecord, confined_bind_iff, confined_mapError_disk, confined_mapError_value, true_and]
  exact fun bytes _ => ⟨confined_mapError fun _ => rfl, fun text _ => ⟨confined_mapError fun _ => rfl,
    fun _ _ => trivial⟩⟩

/-- Reading a snapshot back fails for want of one that is intact. -/
theorem confined_resume (archive : Archive) (disk : Disk) :
    Confined ["ResumeError"] (archive.resume disk) := by
  have loaded : ∀ id, Confined ["ResumeError"] (archive.load disk id) := by
    intro id
    have copies : ∀ path file, Confined ["ResumeError"] (readCopy disk path file) := by
      intro path file
      unfold readCopy
      split <;> simp [Failure.title?]
    have record : Confined ["ResumeError"] (readRecord disk (archive.directory.child (nameOf id))) :=
      confined_readRecord disk _
    rw [load]
    split
    · next failure failed =>
      simp_all [Failure.title?]
    · simp [copies]
  have first : ∀ ids problems, Confined ["ResumeError"] (archive.loadFirst disk problems ids) := by
    intro ids
    induction ids with
    | nil => simp [loadFirst, Failure.title?]
    | cons id rest ih =>
      intro problems
      rw [loadFirst]
      split
      · simp
      · exact ih _
      · next failed => exact (loaded id).of_eq failed
  have found : Confined ["ResumeError"] (archive.ids disk) := confined_ids archive disk
  rw [Archive.resume]
  split
  · next failure failed =>
    rw [failed] at found
    split
    · simp [Failure.title?]
    · simpa using found
  · simp [first]

def Stays (directory : Path) (property : Disk → Prop) (pair : Archive × Disk) : Prop :=
  pair.1.directory = directory ∧ property pair.2

/-- The paths are allowed at which snapshots of some files are written and removed. -/
structure Allows (allowed : Path → Prop) (directory : Path) (files : List (String × Bytes)) : Prop where
  base : allowed directory
  snapshot : ∀ id, allowed (directory.child (nameOf id))
  staging : ∀ id, allowed (stagingPath directory id)
  record : ∀ id, allowed ((stagingPath directory id).child "meta.json")
  copies : ∀ id, allowed ((stagingPath directory id).child "files")
  copy : ∀ id, ∀ file ∈ files, allowed (((stagingPath directory id).child "files").child file.1) ∧
    allowed (((stagingPath directory id).child "files").child file.1).parent

theorem allows_true {files : List (String × Bytes)} : Allows (fun _ => True) directory files :=
  ⟨trivial, fun _ => trivial, fun _ => trivial, fun _ => trivial, fun _ => trivial,
    fun _ _ _ => ⟨trivial, trivial⟩⟩

section Taking

theorem confined_onDisk {step : Step Disk α} (confined : step.Confined titles property) :
    (onDisk step).Confined titles (Stays directory property) :=
  confined.within (fun _ so => so.2) fun _ _ so after => ⟨so.1, after⟩

theorem isAmong_unwritable (among : failure.IsAmong ["SnapshotWriteError"]) :
    (unwritable directory failure).IsAmong ["SnapshotWriteError"] := by
  rw [unwritable]
  split
  · exact isAmong_of_some rfl List.mem_cons_self
  · exact among

variable (lasts : Disk.LastsAt allowed property)

include lasts

theorem confined_removeSnapshots (may : ∀ id, allowed (directory.child (nameOf id))) (ids : List Int) :
    (removeSnapshots directory ids).Confined ["SnapshotWriteError"] property := by
  induction ids with
  | nil => exact Step.confined_pure _
  | cons id rest ih =>
    refine (confined_removeTree lasts (may id)).attempt (fun _ => ih) fun failure among => ?_
    dsimp only
    split
    · exact confined_throw (isAmong_of_some rfl List.mem_cons_self)
    · exact confined_throw among

variable {capture : Capture} (may : Allows allowed directory (orderedFiles capture.project))

include may

theorem confined_publish {finish : Finish} (finished : ∀ path, (finish path).Confined titles property)
    (id : Int) (now : Float) : (publish finish directory capture id now).Confined titles property := by
  have copied : ∀ files : List (String × Bytes),
      (∀ file ∈ files, allowed (((stagingPath directory id).child "files").child file.1) ∧
        allowed (((stagingPath directory id).child "files").child file.1).parent) →
      (copyFiles ((stagingPath directory id).child "files") files).Confined titles property := by
    intro files all
    induction files with
    | nil => exact Step.confined_pure _
    | cons file rest ih =>
      obtain ⟨target, folder⟩ := all file List.mem_cons_self
      exact (confined_ensureDir lasts folder _).bind fun _ =>
        (confined_alter lasts target _).bind fun _ => ih (List.forall_mem_cons.mp all).2
  refine confined_ask.bind fun there =>
    Step.Confined.when (confined_removeTree lasts (may.staging id)) fun _ => ?_
  refine (confined_ensureDir lasts (may.copies id) _).bind fun _ =>
    (copied _ (may.copy id)).bind fun _ => ?_
  refine (confined_lift (confined_mapError fun _ => rfl)).bind fun record => ?_
  refine (confined_lift (confined_mapError fun _ => rfl)).bind fun text => ?_
  refine (confined_alter lasts (may.record id) _).bind fun _ => (finished _).bind fun _ => ?_
  exact (confined_rename lasts (may.staging id) (may.snapshot id)).bind fun _ => Step.confined_pure _

theorem confined_write (now : Float) :
    (write (fun _ => pure ()) capture now).Confined ["SnapshotWriteError"] (Stays directory property) := by
  have allocated : allocate.Confined ["SnapshotWriteError"] (Stays directory property) := by
    refine confined_get.bind fun pair => (confined_lift (confined_ids _ _)).bind fun ids => ?_
    exact Step.Confined.bind (Step.confined_modify fun _ so => so) fun _ => Step.confined_pure _
  intro pair so
  rw [write, ends_get_bind]
  rw [so.1]
  refine (((confined_onDisk (confined_ensureDir lasts may.base true)).bind
    fun _ => allocated).attempt (fun id => ?_) fun failure among => ?_) pair so
  case refine_2 => exact confined_throw (isAmong_unwritable among)
  refine (confined_onDisk (confined_publish lasts may (fun _ => Step.confined_pure _) id now)).attempt
    Step.confined_pure fun failure among => ?_
  have gone : (throw (unwritable directory failure) : Step (Archive × Disk) Record).Confined
      ["SnapshotWriteError"] (Stays directory property) :=
    confined_throw (isAmong_unwritable among)
  refine Step.Confined.ite ?_ gone
  exact (confined_onDisk (confined_removeTree lasts (may.staging id))).attempt (fun _ => gone)
    fun _ _ => gone

/-- Offering a snapshot fails as such, or for what is no failure of the reduction. -/
theorem confined_offer (now : Float) :
    (offer (fun _ => pure ()) capture now).Confined ["SnapshotWriteError"] (Stays directory property) := by
  have evicted : evict.Confined ["SnapshotWriteError"] (Stays directory property) := by
    intro pair so
    rw [evict, ends_get_bind]
    dsimp only
    rw [so.1]
    refine ((Step.confined_lift (confined_ids _ _)).bind fun ids => ?_) pair so
    have count : Confined ["SnapshotWriteError"] (surplus pair.1.retention ids.length) := by
      unfold surplus
      split <;> simp [Failure.title?]
    exact (Step.confined_lift count).bind fun _ =>
      confined_onDisk (confined_removeSnapshots lasts may.snapshot _)
  refine Step.confined_get.bind fun pair => ?_
  refine (Step.confined_lift (confined_mapError fun _ => rfl)).bind fun soon =>
    (Step.confined_pure _).ite ?_
  refine (confined_write lasts may now).bind fun record => ?_
  refine Step.Confined.bind (Step.confined_modify fun _ so => so) fun _ => ?_
  exact evicted.bind fun _ => Step.confined_pure _

end Taking

end Archive

/-! ### Engines -/

namespace Engine

theorem confined_log (kind : String) (data : List (String × Value)) :
    (log kind data).Confined titles fun _ => True := by
  have appends : ∀ (journal : Journal) (bytes : Bytes),
      (World.onDisk (Disk.change (·.append journal.eventFile bytes))).Confined titles fun _ => True :=
    fun _ _ => (confined_alter Disk.isLasting_true.toLastsAt trivial _).within (fun _ so => so)
      fun _ _ _ so => so
  refine confined_get.bind fun engine => ?_
  split
  · exact (Journal.confined_event (appends _) (fun _ _ _ so => so) kind data).within (fun _ so => so)
      fun _ _ _ so => so
  · exact Step.confined_pure _

/-- Taking a snapshot does not fail as a reduction does: that a snapshot cannot be written is only
logged. -/
theorem confined_keepSnapshot (progress : Progress) :
    (keepSnapshot progress).Confined titles fun _ => True := by
  intro engine _
  rw [keepSnapshot, ends_get_bind, ends_bind, ends_attempt, onArchive, ends_within]
  refine (Archive.confined_offer Disk.isLasting_true.toLastsAt Archive.allows_true _ _
    ⟨rfl, trivial⟩).imp (fun kept pair _ => ?_) fun failure pair failed => ?_
  · cases kept with
    | none => trivial
    | some record =>
      exact Step.Confined.bind (confined_modify fun _ so => so) (fun _ => confined_log _ _) _ trivial
  · dsimp only
    split
    · exact confined_log _ _ _ trivial
    · next other =>
      refine ⟨isAmong_of_none (failed.1.title?_of_ne fun is => ?_), trivial⟩
      obtain ⟨fault, rfl⟩ := Failure.title?_eq_archive_iff.mp is
      exact other fault rfl

end Engine
end Whittle
