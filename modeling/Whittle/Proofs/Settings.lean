import Whittle.Command
import Whittle.Proofs.Step

/-!
Engines made from settings. Settings that were checked, with values of the kinds that are meant for
them, ask for certain passes (`Settings.Searching.wanted`), and an engine that is made from them has
just these. There is one exactly if the settings ask for a pass at all: that they do is not checked
(`Settings.engine_of_wanted`).
-/

namespace Whittle

def Value.text? : Value → Option String
  | .text written => some written
  | _ => none

namespace Pass

theorem name_of_ofName? {written : String} {pass : Pass} (known : ofName? written = some pass) :
    pass.name = written := by
  simpa using List.find?_some known

theorem eq_removeFiles_iff (pass : Pass) : pass = .removeFiles ↔ pass.name = removeFiles.name := by
  cases pass <;> decide

theorem map_name_filterMap {names : List String} (fileRemoval : Bool)
    (known : names.filter (fun name => (ofName? name).isNone) = []) :
    ((names.filterMap ofName?).filter fun pass => fileRemoval || pass ≠ .removeFiles).map name =
      names.filter fun written => fileRemoval || written ≠ removeFiles.name := by
  induction names with
  | nil => rfl
  | cons written rest ih =>
    cases found : ofName? written with
    | none => simp [found] at known
    | some pass =>
      obtain rfl := name_of_ofName? found
      have ih := ih (by simpa [found] using known)
      simp only [List.filterMap_cons, found, List.filter_cons, eq_removeFiles_iff, ne_eq]
      split
      · simpa [eq_removeFiles_iff] using ih
      · simpa [eq_removeFiles_iff] using ih

theorem catalog_of_known {names : List String} (fileRemoval : Bool)
    (known : names.filter (fun name => (ofName? name).isNone) = []) :
    ∃ passes, catalog names fileRemoval = .ok passes ∧
      passes.map name = (if names = [] then all.map name else names).filter fun written =>
        fileRemoval || written ≠ removeFiles.name := by
  cases names with
  | nil => exact ⟨_, rfl, map_name_filterMap fileRemoval (by decide +kernel)⟩
  | cons written rest =>
    exact ⟨_, if_pos (List.isEmpty_iff.mpr known), map_name_filterMap fileRemoval known⟩

end Pass

namespace Settings

def Searching.names (searching : Searching) : List String :=
  match searching.passes with
  | .list names => names.filterMap Value.text?
  | _ => []

/-- The names of the passes that are asked for: those given, or all if none is given, but without the
removal of files where that is turned off. -/
def Searching.wanted (searching : Searching) : List String :=
  (if searching.names = [] then Pass.all.map Pass.name else searching.names).filter fun name =>
    searching.fileRemoval.isGiven || name ≠ Pass.removeFiles.name

/-- What an engine is made from is of the kind that is meant for it. A number that is none is found by
the check. -/
structure IsTyped (settings : Settings) (driver : String) (searching : Searching) : Prop where
  driver : settings.driver = .text driver
  directory : settings.archiving.directory = .null ∨ settings.archiving.directory.text?.isSome = true
  fields : settings.searching = .fields searching
  passes : searching.passes = .null ∨ searching.passes = .list (searching.names.map .text)
  excluded : searching.excluded.items?.isSome = true

theorem unknownPasses_texts (names : List String) :
    unknownPasses (names.map .text) =
      .ok ((names.filter fun name => (Pass.ofName? name).isNone).map .text) := by
  induction names with
  | nil => rfl
  | cons name rest ih =>
    rw [List.map_cons, unknownPasses, ih]
    change (Except.ok (if (Pass.ofName? name).isSome then _ else _) : Except Failure _) = _
    cases known : Pass.ofName? name <;> simp [known]

theorem textsFrom_texts (index : Nat) (names : List String) :
    textsFrom index (names.map .text) = .ok names := by
  induction names generalizing index with
  | nil => rfl
  | cons name rest ih =>
    rw [List.map_cons, textsFrom, ih]
    rfl

section Refusal

variable {ε α β : Type} {refused given : Bool} {fault : ε} {next : α → Except ε β}
  {rest : Except ε β} {limit : Except ε Bool} {value : β}

/-- Where something is refused, nothing is answered. -/
theorem refuse_eq_ok_iff :
    (if refused = true then throw fault >>= next else rest) = .ok value ↔
      refused = false ∧ rest = .ok value := by
  cases refused with
  | true => simp [throw, throwThe, MonadExceptOf.throw, bind, Except.bind]
  | false => simp

theorem ok_of_limit
    (answered : (if given = true then
      limit >>= fun refused => if refused = true then throw fault >>= next else rest
      else rest) = .ok value) :
    rest = .ok value := by
  split at answered
  · obtain ⟨_, -, answered⟩ := bind_eq_ok_iff.mp answered
    exact (refuse_eq_ok_iff.mp answered).2
  · exact answered

end Refusal

section Checked

variable {settings : Settings} {searching : Searching} {driver : String}

theorem of_check (checked : settings.check = .ok ()) (fields : settings.searching = .fields searching) :
    settings.archiving.directory.isGiven = true ∧ isBelow settings.archiving.retention 1 = .ok false ∧
      checkPasses searching.passes = .ok () := by
  simp only [check, refuse_eq_ok_iff, bind_eq_ok_iff, fields, Part.get, Bool.not_eq_false'] at checked
  obtain ⟨-, -, given, -, -, -, _, below, rfl, checked⟩ := checked
  exact ⟨given, below, ok_of_limit (ok_of_limit checked)⟩

section

variable (typed : settings.IsTyped driver searching)

include typed

theorem IsTyped.given :
    searching.passes.isGiven = true ∧ searching.passes.items = .ok (searching.names.map .text) ∨
      searching.passes.isGiven = false ∧ searching.names = [] := by
  obtain missing | listed := typed.passes
  · simp [missing, Searching.names, Value.isGiven]
  · rw [listed]
    cases searching.names <;> simp [Value.isGiven, Value.items, Value.items?]

theorem IsTyped.known (checked : checkPasses searching.passes = .ok ()) :
    searching.names.filter (fun name => (Pass.ofName? name).isNone) = [] := by
  obtain ⟨given, items⟩ | ⟨-, none⟩ := typed.given
  · unfold checkPasses at checked
    rw [if_pos given, items] at checked
    simp only [mapError_ok, bind, Except.bind, unknownPasses_texts, textsFrom_texts] at checked
    split at checked
    · cases checked
    · simp_all
  · simp [none]

/-- Settings that were checked name known passes, and those asked for make the catalog. -/
theorem IsTyped.catalog (checked : checkPasses searching.passes = .ok ()) :
    ∃ passes, settings.passes = .ok passes ∧ passes.map Pass.name = searching.wanted := by
  have known := typed.known checked
  have listed : settings.passes = Pass.catalog searching.names searching.fileRemoval.isGiven := by
    obtain ⟨given, items⟩ | ⟨missing, none⟩ := typed.given
    · simp [Settings.passes, typed.fields, given, items, Part.get, unknownPasses_texts, known,
        textsFrom_texts, bind, Except.bind]
    · simp [Settings.passes, typed.fields, missing, none, Part.get, unknownPasses, textsFrom, bind,
        Except.bind, pure, Except.pure]
  rw [listed]
  exact Pass.catalog_of_known _ known

/-- Snapshots go to a directory that is named, and at least one is kept. -/
theorem IsTyped.archive (given : settings.archiving.directory.isGiven = true)
    (below : isBelow settings.archiving.retention 1 = .ok false) :
    ∃ archive, settings.archive = .ok archive := by
  have named : ∃ path, toPath settings.archiving.directory = .ok path := by
    cases value : settings.archiving.directory with
    | text written => exact ⟨_, rfl⟩
    | _ =>
      obtain missing | written := typed.directory
      · simp [missing, Value.isGiven] at given
      · simp [value, Value.text?] at written
  obtain ⟨path, named⟩ := named
  cases kept : settings.archiving.retention.number? with
  | none => simp [isBelow, kept] at below
  | some retention =>
    have kept : retention.lt (.int 1) = false := by simpa [isBelow, kept] using below
    refine ⟨{ directory := path, interval := settings.archiving.interval, retention }, ?_⟩
    simp_all [Settings.archive, Archive.create, bind, Except.bind]

end

theorem engine_of_no_passes {journal : Option Journal} {world : World} {found : String}
    {archive : Archive} (created : settings.archive = .ok archive) (catalog : settings.passes = .ok [])
    (named : settings.driver = .text driver) (located : locateDriver world.disk driver = .ok found) :
    settings.engine journal world = .error .noPasses := by
  simp [engine, created, catalog, named, located, Value.toPathText, bind, Except.bind,
    throw, throwThe, MonadExceptOf.throw]

/-- Settings that were checked, of values of the right kinds and with a driver that can be looked
for, have an engine exactly if they ask for a pass, and it has just the passes that they ask for. -/
theorem engine_of_wanted {journal : Option Journal} {world : World} {found : String}
    (typed : settings.IsTyped driver searching) (checked : settings.check = .ok ())
    (located : locateDriver world.disk driver = .ok found) :
    (searching.wanted ≠ [] → ∃ engine, settings.engine journal world = .ok engine ∧
      engine.passes.map Pass.name = searching.wanted) ∧
    (searching.wanted = [] → settings.engine journal world = .error .noPasses) := by
  obtain ⟨given, below, known⟩ := of_check checked typed.fields
  obtain ⟨archive, created⟩ := typed.archive given below
  obtain ⟨passes, catalog, names⟩ := typed.catalog known
  obtain ⟨excluded, listed⟩ := Option.isSome_iff_exists.mp typed.excluded
  rw [← names]
  cases passes with
  | nil => exact ⟨fun some => (some rfl).elim, fun _ =>
      engine_of_no_passes created catalog typed.driver located⟩
  | cons pass rest =>
    simp [engine, created, catalog, typed.driver, typed.fields, located, listed, Value.toPathText,
      Value.items, Part.get, bind, Except.bind, pure, Except.pure]

end Checked

namespace Sample

/-- Settings with a list of passes, and the removal of files turned off. -/
def fileless (names : List String) : Settings where
  driver := .text "driver"
  root := .text "project"
  archiving := { directory := .text "snaps", interval := .int 10 }
  searching := .fields { passes := .list (names.map .text), fileRemoval := .bool false }

def bare : World := { disk := { entries := [], home := ["work"] } }

theorem locateDriver_bare : locateDriver bare.disk "driver" = .ok "driver" := by
  have found : (locateDriver bare.disk "driver").toOption = some "driver" := by decide +kernel
  cases located : locateDriver bare.disk "driver" <;> simp_all [Except.toOption]

end Sample

/-- With another pass beside the removal of files, an engine is left with that pass. -/
theorem engine_removeLines :
    ∃ engine, (Sample.fileless ["remove-files", "remove-lines"]).engine none Sample.bare = .ok engine ∧
      engine.passes.map Pass.name = ["remove-lines"] := by
  have typed : (Sample.fileless ["remove-files", "remove-lines"]).IsTyped "driver" _ :=
    { driver := rfl, directory := .inr rfl, fields := rfl, passes := .inr rfl, excluded := rfl }
  exact (engine_of_wanted typed (by rfl) Sample.locateDriver_bare).1 (by decide +kernel)

/-- With no other pass, settings pass the check, but there is no engine, and nothing reports that. -/
theorem engine_removeFiles_alone :
    (Sample.fileless ["remove-files"]).check = .ok () ∧
      (Sample.fileless ["remove-files"]).engine none Sample.bare = .error .noPasses ∧
      Failure.noPasses.title? = none :=
  ⟨by rfl, engine_of_no_passes rfl (by rfl) rfl Sample.locateDriver_bare, rfl⟩

end Settings
end Whittle
