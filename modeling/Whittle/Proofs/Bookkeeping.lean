import Whittle.Proofs.Confined
import Whittle.Proofs.Disk.Margin

/-!
The records that a run keeps, its journal and its snapshots, stay in a margin of the disk:
whatever is logged, staged, published or evicted there, all other places are left alone.
-/

namespace Whittle

open List

variable {chars : List Char} {text : String} {char : Char} {margin : Margin} {journal : Journal}
  {engine : Engine} {progress : Progress}

/-! ### Names below a directory -/

/-- A text that names something below a directory, and not by going up. -/
structure Path.IsInner (text : String) : Prop where
  relative : (Path.ofText text).isAbsolute = false
  named : (Path.ofText text).names ≠ []
  noUp : ".." ∉ (Path.ofText text).names

namespace Path

theorem pieces_of_noSlash (noSlash : '/' ∉ chars) : pieces chars = [chars] := by
  induction chars with
  | nil => rfl
  | cons char rest ih =>
    rw [mem_cons, not_or] at noSlash
    have rest' : pieces rest = [rest] := ih noSlash.2
    rw [pieces, foldr_cons] at *
    rw [rest']
    simp [Ne.symm noSlash.1]

theorem rootOf_of_noSlash (noSlash : '/' ∉ chars) : rootOf chars = "" := by
  unfold rootOf
  split <;> simp_all

/-- A name without slashes is one name if it is not all points. -/
theorem names_of_noSlash (noSlash : '/' ∉ text.toList)
    (member : char ∈ text.toList) (other : char ≠ '.') : (ofText text).names = [text] := by
  have apart : text ≠ "" ∧ text ≠ "." := by
    refine ⟨?_, ?_⟩ <;> rintro rfl <;> simp [other] at member
  simp [ofText, allNames, pieces_of_noSlash noSlash, apart]

theorem isInner_of_noSlash (noSlash : '/' ∉ text.toList)
    (member : char ∈ text.toList) (other : char ≠ '.') : IsInner text := by
  have names := names_of_noSlash noSlash member other
  refine ⟨by simp [isAbsolute, ofText, rootOf_of_noSlash noSlash], by simp [names], ?_⟩
  rw [names, mem_singleton]
  rintro rfl
  simp [other] at member

end Path

namespace Margin.Holds

variable {disk : Disk} {path : Path}

theorem below {names : List String} (holds : margin.Holds disk path)
    (plain : ∀ name ∈ names, Disk.IsPlain name) :
    margin.Holds disk { path with names := path.names ++ names } := by
  obtain ⟨base, top, before, named, entered, inside, rfl, plains⟩ := holds
  refine ⟨base, top, before ++ names, named, entered, inside, by simp, fun name member => ?_⟩
  rcases mem_append.mp member with old | new
  · exact plains name old
  · exact plain name new

theorem child_eq (inner : Path.IsInner text) :
    path.child text = { path with names := path.names ++ (Path.ofText text).names } := by
  simp [Path.child, Path.append, inner.relative]

theorem plain_of_inner (inner : Path.IsInner text) {name : String}
    (member : name ∈ (Path.ofText text).names) : Disk.IsPlain name := by
  have kept := (mem_filter.mp member).2
  refine ⟨?_, fun same => inner.noUp (same ▸ member)⟩
  simp only [decide_eq_true_eq] at kept
  simp [Disk.isHere, kept]

theorem child (holds : margin.Holds disk path) (inner : Path.IsInner text) :
    margin.Holds disk (path.child text) := by
  rw [child_eq inner]
  exact holds.below fun _ => plain_of_inner inner

theorem child_parent (holds : margin.Holds disk path) (inner : Path.IsInner text) :
    margin.Holds disk (path.child text).parent := by
  have parent : (path.child text).parent =
      { path with names := path.names ++ (Path.ofText text).names.dropLast } := by
    rw [child_eq inner, Path.parent, dropLast_append_of_ne_nil inner.named]
  rw [parent]
  exact holds.below fun name member => plain_of_inner inner (dropLast_subset _ member)

end Margin.Holds

/-! ### Journals -/

variable {before : Disk} {α : Type}

/-- The disk of a world has changed in the margin only, and no wish to stop has come. -/
structure World.Minds (margin : Margin) (before : Disk) (cancelled : Bool) (world : World) : Prop where
  tends : margin.Tends before world.disk
  cancelled : world.cancelled = cancelled

/-- What is done at paths into the margin leaves all other places alone. -/
theorem Margin.lastsAt : Disk.LastsAt (margin.Holds before) (margin.Tends before) := by
  have leads : ∀ {disk path}, margin.Holds before path → margin.Tends before disk →
      margin.Leads disk path :=
    fun holds so => (holds.mono so.alters.keepsWays).leads so.linkless
  refine ⟨?_, ?_, ?_, ?_⟩
  · exact fun holds so altered => so.trans (tends_alter (leads holds so) so.linkless altered)
  · exact fun existing holds so =>
      so.trans (tends_makeDirs (holds.mono so.alters.keepsWays) so.linkless existing)
  · exact fun holds so removed => so.trans (tends_removeTree (leads holds so) so.linkless removed)
  · exact fun holds holds' so renamed =>
      so.trans (tends_rename (leads holds so) so.linkless (leads holds' so) renamed)

theorem Journal.event_keeps_of {property : World → Prop} (appends : ∀ bytes : Bytes,
      (World.onDisk (Disk.change (·.append journal.eventFile bytes))).Keeps property)
    (prints : ∀ world printed complained, property world →
      property { world with printed, complained })
    (kind : String) (data : List (String × Value)) : (journal.event kind data).Keeps property :=
  (confined_event (fun bytes => (appends bytes).confined) prints kind data).keeps

/-- Logging changes the event log only. -/
theorem Journal.event_keeps {cancelled : Bool}
    (holds : margin.Holds before journal.eventFile) (kind : String) (data : List (String × Value)) :
    (journal.event kind data).Keeps (World.Minds margin before cancelled) := by
  have appends : ∀ bytes : Bytes, (World.onDisk (Disk.change (·.append journal.eventFile bytes))).Confined
      [] (World.Minds margin before cancelled) := fun bytes =>
    (Disk.confined_alter Margin.lastsAt holds _).within (fun _ so => so.tends) fun _ _ so tends =>
      ⟨tends, so.cancelled⟩
  exact (confined_event appends (fun _ _ _ so => ⟨so.tends, so.cancelled⟩) kind data).keeps

/-! ### Archives -/

namespace Archive

theorem isDigit_of_mem_padded {width value : Nat}
    (member : char ∈ (Text.padded width value).toList) : char.isDigit = true := by
  rw [Text.padded, String.toList_ofList, mem_append, mem_replicate] at member
  rcases member with ⟨-, rfl⟩ | digit
  · decide
  · exact Nat.isDigit_of_mem_toDigits (by decide) (by decide) digit

theorem of_mem_nameOf {id : Int} (member : char ∈ (nameOf id).toList) :
    char = '-' ∨ char.isDigit = true := by
  unfold nameOf at member
  split at member
  · rw [String.toList_append, mem_append] at member
    rcases member with sign | digit
    · exact .inl (mem_singleton.mp sign)
    · exact .inr (isDigit_of_mem_padded digit)
  · exact .inr (isDigit_of_mem_padded member)

theorem notMem_nameOf (id : Int) (unsigned : char ≠ '-') (other : char.isDigit ≠ true) :
    char ∉ (nameOf id).toList :=
  fun member => (of_mem_nameOf member).elim unsigned other

theorem noSlash_nameOf (id : Int) : '/' ∉ (nameOf id).toList :=
  notMem_nameOf id (by decide) (by decide)

theorem exists_mem_nameOf (id : Int) : ∃ char ∈ (nameOf id).toList, char ≠ '.' := by
  obtain ⟨char, member⟩ : ∃ char, char ∈ (nameOf id).toList := by
    refine exists_mem_of_ne_nil _ fun empty => ?_
    have short := congrArg length empty
    unfold nameOf Text.padded at short
    split at short
    · simp at short
    · simp at short
  exact ⟨char, member, fun point => notMem_nameOf id (by decide) (by decide) (point ▸ member)⟩

theorem nameOf_inner (id : Int) : Path.IsInner (nameOf id) := by
  obtain ⟨char, member, other⟩ := exists_mem_nameOf id
  exact Path.isInner_of_noSlash (noSlash_nameOf id) member other

theorem noSlash_staging (id : Int) : '/' ∉ ("." ++ nameOf id ++ ".partial").toList := by
  simp [noSlash_nameOf id]

theorem staging_inner (id : Int) : Path.IsInner ("." ++ nameOf id ++ ".partial") :=
  Path.isInner_of_noSlash (noSlash_staging id) (by simp : 'p' ∈ _) (by decide)

theorem inner_of_tracked {project : Project}
    (inner : ∀ name, project.tracks name = true → Path.IsInner name) :
    ∀ file ∈ orderedFiles project, Path.IsInner file.1 := by
  intro file member
  obtain ⟨name, -, taken⟩ := mem_filterMap.mp member
  obtain ⟨tracked, found, rfl⟩ := Option.map_eq_some_iff.mp taken
  exact inner name (by rw [Project.tracks, Listing.has, found, Option.isSome_some])

section Offer

variable {directory : Path} (holds : margin.Holds before directory)

include holds

theorem removeSnapshots_keeps (ids : List Int) :
    (removeSnapshots directory ids).Keeps (margin.Tends before) :=
  (confined_removeSnapshots Margin.lastsAt (fun id => holds.child (nameOf_inner id)) ids).keeps

variable {capture : Capture} (inner : ∀ file ∈ orderedFiles capture.project, Path.IsInner file.1)

include inner

theorem allows_of_holds : Allows (margin.Holds before) directory (orderedFiles capture.project) := by
  have staging (id : Int) : margin.Holds before (stagingPath directory id) :=
    holds.child (staging_inner id)
  have copies (id : Int) : margin.Holds before ((stagingPath directory id).child "files") :=
    (staging id).child (Path.isInner_of_noSlash (by decide) (mem_cons_self : 'f' ∈ _) (by decide))
  have record (id : Int) : margin.Holds before ((stagingPath directory id).child "meta.json") :=
    (staging id).child (Path.isInner_of_noSlash (by decide) (mem_cons_self : 'm' ∈ _) (by decide))
  exact ⟨holds, fun id => holds.child (nameOf_inner id), staging, record, copies, fun id file member =>
    ⟨(copies id).child (inner file member), (copies id).child_parent (inner file member)⟩⟩

/-- Publishing a snapshot changes the archive's directory only. -/
theorem publish_keeps (id : Int) (now : Float) :
    (publish (fun _ => pure ()) directory capture id now).Keeps (margin.Tends before) :=
  (confined_publish Margin.lastsAt (allows_of_holds holds inner) (fun _ => (keeps_pure _).confined) id
    now).keeps

/-- Taking a snapshot changes the archive's directory only. -/
theorem offer_keeps (now : Float) :
    (offer (fun _ => pure ()) capture now).Keeps (Stays directory (margin.Tends before)) :=
  (confined_offer Margin.lastsAt (allows_of_holds holds inner) now).keeps

end Offer

end Archive

/-! ### Engines -/

namespace Engine

section Parts

theorem keepSnapshot_ends_of {property : Engine → Prop}
    (offers : (onArchive (Archive.offer (fun _ => pure ()) progress.capture engine.world.clock)).Leaves
      property engine)
    (saves : ∀ engine, property engine → property { engine with unsaved := false })
    (logs : ∀ kind data, (log kind data).Keeps property) :
    (keepSnapshot progress).Leaves property engine := by
  rw [Step.Leaves, keepSnapshot, ends_get_bind, ends_bind, ends_attempt]
  refine offers.imp (fun offered after so => ?_) fun failure after so => ?_
  · cases offered with
    | none => exact so
    | some record => exact Step.Keeps.bind (keeps_modify saves) (fun _ => logs _ _) after so
  · dsimp only
    split
    · exact logs _ _ after so
    · exact so

/-- What is logged as a run ends. -/
def closing (progress : Progress) (now : Float) : List (String × Value) :=
  [("size", .int progress.project.size), ("counters", progress.counters.toValue now)]

theorem finish_ends_of {saved entered : Engine → Prop} {lost : Failure → Engine → Prop} {status : Phase}
    (keeps : (keepSnapshot progress).Ends (fun _ => saved) lost engine) (so : saved engine)
    (enters : ∀ now middle, saved middle →
      (enter status (closing progress now)).Ends (fun _ => entered) lost middle) (initialSize : Int) :
    (finish progress status initialSize).Ends
      (fun result after => entered after ∧ result.status = status ∧ result.project = progress.project ∧
        result.counters = progress.counters ∧ result.initialSize = initialSize) lost engine := by
  rw [finish, ends_get_bind]
  split
  · refine keeps.bind (fun _ middle so => ?_) fun _ _ => id
    rw [ends_get_bind]
    exact (enters _ middle so).bind (fun _ _ entered => ⟨entered, rfl, rfl, rfl, rfl⟩) fun _ _ => id
  · rw [ends_get_bind]
    exact (enters _ engine so).bind (fun _ _ entered => ⟨entered, rfl, rfl, rfl, rfl⟩) fun _ _ => id

end Parts

/-- The records of an engine lie in the margin. -/
structure Within (margin : Margin) (engine : Engine) : Prop where
  linkless : margin.Linkless engine.world.disk
  archive : margin.Holds engine.world.disk engine.archive.directory
  journal : ∀ journal, engine.journal = some journal →
    margin.Holds engine.world.disk journal.eventFile

/-- An engine that has kept records: nothing has changed that its search depends on. -/
structure Notes (margin : Margin) (before after : Engine) : Prop where
  tends : margin.Tends before.world.disk after.world.disk
  cancelled : after.world.cancelled = before.world.cancelled
  judge : after.judge = before.judge
  driver : after.driver = before.driver
  passes : after.passes = before.passes
  directory : after.archive.directory = before.archive.directory
  journal : after.journal = before.journal
  trail : after.trail = before.trail
  standing : after.standing = before.standing

def into (engine : Engine) (phase : Phase) : Engine :=
  { engine with trail := phase :: engine.trail }

variable {before after : Engine}

theorem Notes.refl (linkless : margin.Linkless engine.world.disk) : Notes margin engine engine :=
  ⟨.refl linkless, rfl, rfl, rfl, rfl, rfl, rfl, rfl, rfl⟩

theorem Notes.trans {middle : Engine} (first : Notes margin before middle)
    (second : Notes margin middle after) : Notes margin before after :=
  ⟨first.tends.trans second.tends, second.cancelled.trans first.cancelled,
    second.judge.trans first.judge, second.driver.trans first.driver,
    second.passes.trans first.passes, second.directory.trans first.directory,
    second.journal.trans first.journal, second.trail.trans first.trail,
    second.standing.trans first.standing⟩

theorem Notes.into (notes : Notes margin before after) (phase : Phase) :
    Notes margin (before.into phase) (after.into phase) :=
  { notes with trail := congrArg (phase :: ·) notes.trail }

theorem Within.into (within : engine.Within margin) (phase : Phase) :
    (engine.into phase).Within margin :=
  { within with }

theorem Within.notes (within : before.Within margin) (notes : Notes margin before after) :
    after.Within margin where
  linkless := notes.tends.linkless
  archive := notes.directory ▸ within.archive.mono notes.tends.alters.keepsWays
  journal journal same :=
    (within.journal journal (notes.journal ▸ same)).mono notes.tends.alters.keepsWays

section Notes

variable (within : engine.Within margin)

include within

theorem log_ends (kind : String) (data : List (String × Value)) :
    (log kind data).Leaves (Notes margin engine) engine := by
  have begins := Notes.refl within.linkless
  rw [Step.Leaves, log, ends_get_bind]
  split
  · next journal same =>
    refine ((Journal.event_keeps (within.journal journal same) kind data).within
      (fun engine' (so : Notes margin engine engine') => ⟨so.tends, so.cancelled⟩)
      fun world engine so minds => ?_) engine begins
    exact { so with tends := minds.tends, cancelled := minds.cancelled }
  · exact begins

theorem enter_ends (phase : Phase) (data : List (String × Value)) :
    (enter phase data).Leaves (Notes margin (engine.into phase)) engine := by
  rw [Step.Leaves, enter, ends_bind, ends_modify]
  exact log_ends (within.into phase) _ _

theorem fail_ends (failure : Failure) (title : String) :
    (fail failure title).Leaves (fun after => ∃ phases, (∀ phase ∈ phases, phase = .failed) ∧
        Notes margin { engine with trail := phases ++ engine.trail } after) engine := by
  rw [Step.Leaves, fail, ends_get_bind]
  split
  · exact (enter_ends within _ _).mono
      fun _ notes => ⟨[.failed], fun _ => mem_singleton.mp, notes⟩
  · exact ⟨[], by simp, .refl within.linkless⟩

section

variable (inner : ∀ name, progress.project.tracks name = true → Path.IsInner name)

include inner

theorem keepSnapshot_ends :
    (keepSnapshot progress).Leaves (Notes margin engine)
      engine := by
  have offered : ∀ now, (onArchive (Archive.offer (fun _ => pure ()) progress.capture now)).Keeps
      (Notes margin engine) := fun now =>
    (Archive.offer_keeps within.archive (Archive.inner_of_tracked inner) now).within
      (fun engine' (so : Notes margin engine engine') => ⟨so.directory, so.tends⟩)
      fun _ _ so stays => { so with directory := stays.1, tends := stays.2 }
  have logged : ∀ kind data, (log kind data).Keeps (Notes margin engine) := fun kind data _ so =>
    (log_ends (within.notes so) kind data).mono fun _ => so.trans
  exact keepSnapshot_ends_of (offered _ engine (.refl within.linkless)) (fun _ so => { so with }) logged

theorem finish_ends (status : Phase) (initialSize : Int) : (finish progress status initialSize).Ends
      (fun result after => Notes margin (engine.into status) after ∧ result.status = status ∧
        result.project = progress.project)
      (fun _ after => Notes margin engine after ∨ Notes margin (engine.into status) after) engine := by
  refine (finish_ends_of ((keepSnapshot_ends within inner).imp (fun _ _ => id) fun _ _ => .inl)
    (.refl within.linkless) (fun _ middle so => ?_) initialSize).imp
    (fun _ _ ended => ⟨ended.1, ended.2.1, ended.2.2.1⟩) fun _ _ => id
  exact (enter_ends (within.notes so) status _).imp (fun _ _ notes => (so.into status).trans notes)
    fun _ _ notes => .inr ((so.into status).trans notes)

end

end Notes

end Engine
end Whittle
