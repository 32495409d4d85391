import Whittle.Proofs.Bookkeeping
import Whittle.Proofs.Disk.Approached
import Whittle.Proofs.Text

/-!
What publishing a snapshot leaves on disk. In a directory that its path opens, a snapshot is
staged where nothing was: directories are made, each file is copied to a place of its own, and the
record is written. Whatever comes of that, nothing else is changed (`Archive.publish_ends_of`).
Renamed into place, the snapshot has all of that under its own name (`Archive.stored_of_publish`).
-/

namespace Whittle

open Step

open List

variable {more : List String} {old new text : String} {folder : Place} {cleared : Disk}
  {done : Record → Disk → Prop} {failed : Failure → Disk → Prop}

/-! ### Names of snapshots in paths -/

namespace Path

variable {path : Path}

/-- The text of a path begins alike whatever names come after it. -/
theorem exists_text_down (path : Path) :
    ∃ before, ∀ names, names ≠ [] → (path.down names).text = before ++ "/".intercalate names := by
  obtain ⟨root, above⟩ := path
  obtain ⟨before, whole⟩ : ∃ before, ∀ names, names ≠ [] →
      "/".intercalate (above ++ names) = before ++ "/".intercalate names := by
    induction above with
    | nil => exact ⟨"", fun names _ => by simp⟩
    | cons first rest ih =>
      obtain ⟨before, whole⟩ := ih
      refine ⟨first ++ "/" ++ before, fun names named => ?_⟩
      rw [cons_append, String.intercalate_cons_of_ne_nil (by simp [named]), whole names named]
      simp [String.append_assoc]
  refine ⟨root ++ before, fun names named => ?_⟩
  rw [text, down, if_neg (by simp [named]), whole names named, String.append_assoc]

theorem exists_text (path : Path) (more : List String) :
    ∃ before after, ∀ name, (path.down (name :: more)).text = before ++ name ++ after := by
  obtain ⟨after, ends⟩ : ∃ after, ∀ name, "/".intercalate (name :: more) = name ++ after := by
    cases more with
    | nil => exact ⟨"", fun name => by simp⟩
    | cons next rest =>
      refine ⟨"/" ++ "/".intercalate (next :: rest), fun name => ?_⟩
      rw [String.intercalate_cons_cons, String.append_assoc]
  obtain ⟨before, whole⟩ := path.exists_text_down
  refine ⟨before, after, fun name => ?_⟩
  rw [whole (name :: more) (by simp), ends, String.append_assoc]

theorem Passable.exchange (passable : path.Passable (old :: more)) (simple : Text.IsSimple old)
    (simple' : Text.IsSimple new) (shorter : new.length ≤ old.length) :
    path.Passable (new :: more) := by
  obtain ⟨before, after, written⟩ := exists_text path more
  constructor
  · have usable := passable.usable
    rw [written] at usable ⊢
    exact Text.unusable?_replace simple simple' usable
  · have short := passable.short
    rw [written] at short ⊢
    exact Text.exceeds_replace simple simple' shorter short
  · intro name member
    rcases mem_cons.mp member with rfl | later
    · have short : Text.exceeds Disk.nameLimit ("" ++ old ++ "") = false := by
        simpa using passable.fits old mem_cons_self
      simpa using Text.exceeds_replace simple simple' shorter short
    · exact passable.fits name (mem_cons_of_mem _ later)

theorem child_eq_down (inner : IsInner old) : path.child old = path.down (ofText old).names :=
  Margin.Holds.child_eq inner

end Path

theorem Text.IsSimple.append {more : String} (simple : IsSimple text) (simple' : IsSimple more) :
    IsSimple (text ++ more) := by
  constructor
  · intro char member
    rw [String.toList_append, mem_append] at member
    exact member.elim (simple.ascii char) (simple'.ascii char)
  · rw [String.toList_append, mem_append]
    exact fun null => null.elim simple.closed simple'.closed
  · intro empty
    exact simple.some (String.append_eq_empty_iff.mp empty).1

namespace Archive

open Disk (Place IsPlain)

def stagingName (id : Int) : String :=
  "." ++ nameOf id ++ ".partial"

theorem nameOf_names (id : Int) : (Path.ofText (nameOf id)).names = [nameOf id] := by
  obtain ⟨char, member, other⟩ := exists_mem_nameOf id
  exact Path.names_of_noSlash (noSlash_nameOf id) member other

theorem stagingName_names (id : Int) : (Path.ofText (stagingName id)).names = [stagingName id] :=
  Path.names_of_noSlash (noSlash_staging id) (by simp [stagingName] : 'p' ∈ _) (by decide)

theorem plain_nameOf (id : Int) : IsPlain (nameOf id) :=
  Margin.Holds.plain_of_inner (nameOf_inner id) (by rw [nameOf_names]; exact mem_cons_self)

theorem plain_stagingName (id : Int) : IsPlain (stagingName id) :=
  Margin.Holds.plain_of_inner (staging_inner id)
    (by rw [← stagingName, stagingName_names]; exact mem_cons_self)

theorem stagingPath_eq (directory : Path) (id : Int) :
    stagingPath directory id = directory.down [stagingName id] := by
  rw [stagingPath, Path.child_eq_down (staging_inner id), ← stagingName, stagingName_names]

theorem snapshotPath_eq (directory : Path) (id : Int) :
    directory.child (nameOf id) = directory.down [nameOf id] := by
  rw [Path.child_eq_down (nameOf_inner id), nameOf_names]

/-- The name of a snapshot begins with a digit or a sign, that of a staged one with a point. -/
theorem stagingName_ne (id other : Int) : stagingName id ≠ nameOf other := by
  intro same
  have point : '.' ∈ (nameOf other).toList := by
    rw [← same]
    simp [stagingName]
  exact notMem_nameOf other (by decide) (by decide) point

theorem beside_stagingName (id : Int) : ¬ folder ++ [stagingName id] <+: folder ++ [nameOf id] := by
  intro is
  have same := is.eq_of_length (by simp)
  exact stagingName_ne id id (by simpa using same)

theorem isSimple_nameOf (id : Int) : Text.IsSimple (nameOf id) := by
  have chars : ∀ char ∈ (nameOf id).toList, 0 < char.toNat ∧ char.toNat < 128 := by
    intro char member
    rcases of_mem_nameOf member with rfl | digit
    · decide
    · rw [Char.isDigit, Bool.and_eq_true, decide_eq_true_eq, decide_eq_true_eq] at digit
      have low : 48 ≤ char.toNat := digit.1
      have high : char.toNat ≤ 57 := digit.2
      omega
  constructor
  · exact fun char member => (chars char member).2
  · intro null
    exact absurd (chars _ null).1 (by decide)
  · exact (plain_nameOf id).ne_empty

theorem isSimple_stagingName (id : Int) : Text.IsSimple (stagingName id) := by
  have point : Text.IsSimple "." := ⟨by simp, by simp, by simp⟩
  have ending : Text.IsSimple ".partial" := ⟨by simp, by simp, by simp⟩
  exact (point.append (isSimple_nameOf id)).append ending

theorem length_nameOf_le (id : Int) : (nameOf id).length ≤ (stagingName id).length := by
  rw [stagingName, String.length_append, String.length_append]
  omega

/-! ### Staging -/

section Publish

variable {disk before after : Disk} {directory : Path} {finish : Finish} {capture : Capture}
  {id : Int} {now : Float} {record : Record}

/-- What is done to a staged snapshot leaves the snapshot as it is, and the way to it. -/
def Finish.Spares (finish : Finish) (directory : Path) (folder : Place) (id : Int) : Prop :=
  ∀ disk after, disk.IsTree → disk.Opens directory folder →
    (finish (stagingPath directory id)).runOn disk = (.ok (), after) →
    after.IsTree ∧ after.Opens directory folder ∧ ∀ more entry,
      disk.get? (folder ++ stagingName id :: more) = some entry →
      after.get? (folder ++ stagingName id :: more) = some entry

theorem spares_pure : Finish.Spares (fun _ => pure ()) directory folder id := by
  intro disk after tree opens ran
  cases ran
  exact ⟨tree, opens, fun _ _ found => found⟩

def recordNames (name : String) : List String :=
  [name, "meta.json"]

def copyNames (name file : String) : List String :=
  name :: "files" :: (Path.ofText file).names

/-- A snapshot is on disk under a name: its record has this text, and it has a copy of each file. -/
structure Stored (disk : Disk) (directory : Path) (folder : Place) (name text : String)
    (files : List (String × Bytes)) : Prop where
  record : disk.get? (folder ++ recordNames name) =
    some (.file (.ofBytes (Bytes.ofText text)) Disk.newMode)
  copies : ∀ file ∈ files, disk.get? (folder ++ copyNames name file.1) =
    some (.file (.ofBytes file.2) Disk.newMode)
  recordPath : directory.Passable (recordNames name)
  copyPaths : ∀ file ∈ files, directory.Passable (copyNames name file.1)

theorem plain_files : IsPlain "files" :=
  ⟨by decide, by decide⟩

theorem plain_meta : IsPlain "meta.json" :=
  ⟨by decide, by decide⟩

theorem filesPath_eq (directory : Path) (id : Int) : (stagingPath directory id).child "files" =
    (directory.down [stagingName id]).down ["files"] := by
  rw [stagingPath_eq]
  rfl

theorem metaPath_eq (directory : Path) (id : Int) : (stagingPath directory id).child "meta.json" =
    (directory.down [stagingName id]).down ["meta.json"] := by
  rw [stagingPath_eq]
  rfl

/-- Nothing has changed but where a snapshot is staged, and if something stands there it was there
before or can be looked up. -/
structure Stages (directory : Path) (folder : Place) (id : Int) (before after : Disk) : Prop where
  tree : after.IsTree
  below : Disk.Opens.MadeBelow directory folder (stagingName id) before after

theorem Stages.alters (stages : Stages directory folder id before after) :
    (Margin.inside folder).Alters before after :=
  stages.below.tends.alters.mono fun _ => Margin.inside_of_under

/-- These are the files that were staged so far, and each is there as it was written if no two have
one place. -/
structure Fills (directory : Path) (folder : Place) (id : Int) (before : Disk)
    (files : List (List String × Bytes)) (after : Disk) : Prop
    extends Stages directory folder id before after where
  names : ∀ more, (∃ contents mode,
    after.get? (folder ++ stagingName id :: more) = some (.file contents mode)) ↔
      more ∈ files.map Prod.fst
  stands : (files.map Prod.fst).Nodup → ∀ file ∈ files,
    after.get? (folder ++ stagingName id :: file.1) = some (.file (.ofBytes file.2) Disk.newMode) ∧
      directory.Passable (stagingName id :: file.1)

section Steps

variable {files : List (List String × Bytes)} (opens : before.Opens directory folder)

include opens

theorem ensureBelow_keeps (plain : ∀ part ∈ more, IsPlain part) (existing : Bool) :
    (Disk.ensureDir existing (directory.down (stagingName id :: more))).Keeps
      (Fills directory folder id before files) := by
  intro disk so
  have plain : ∀ part ∈ stagingName id :: more, IsPlain part := by
    simpa [plain_stagingName id] using plain
  have made := (opens.alters so.alters).makeDirs_below so.below.tends.linkless plain existing so.tree
  have grows := disk.grows_makeDirs existing (directory.down (stagingName id :: more))
  refine Disk.ends_ensureDir _ ⟨⟨so.tree.makeDirs _ _, so.below.tends.trans made.tends, fun stands =>
    (made.asked stands).elim so.below.asked .inr⟩, fun more => ?_, fun apart file member => ?_⟩
  · rw [← so.names]
    refine exists_congr fun contents => exists_congr fun mode => ⟨fun found => ?_, grows.kept⟩
    rcases grows.places (folder ++ stagingName id :: more) with same | ⟨-, dir⟩
    · rw [← same, found]
    · rw [dir] at found
      cases found
  · exact (so.stands apart file member).imp_left grows.kept

theorem writeBelow_ends (plain : ∀ part ∈ more, IsPlain part) (named : more ≠ []) (data : Bytes)
    (fills : Fills directory folder id before files disk) :
    (Disk.change (·.write (directory.down (stagingName id :: more)) data)).Ends
      (fun _ => Fills directory folder id before (files ++ [(more, data)]))
      (fun _ => Fills directory folder id before files) disk := by
  have plain : ∀ part ∈ stagingName id :: more, IsPlain part := by
    simpa [plain_stagingName id] using plain
  have linkless := fills.below.tends.linkless
  have opens' := opens.alters fills.alters
  rw [Disk.ends_change]
  refine ⟨fun after wrote => ?_, fun _ _ => fills⟩
  have tends := Margin.tends_alter (opens'.leads_under linkless plain) linkless wrote
  have tree := fills.tree.alter wrote
  obtain ⟨place, contents, mode, located, notDir, put⟩ := Disk.of_alter wrote
  obtain ⟨rfl, passable⟩ := opens'.passable_of_atPath linkless.clear_under plain (by simp) located
  have here : after.get? (folder ++ stagingName id :: more) = some (.file contents mode) := by
    rw [put, Disk.get?_put_self (Disk.not_isFixed notDir)]
  have others : ∀ other, other ≠ more → after.get? (folder ++ stagingName id :: other) =
      disk.get? (folder ++ stagingName id :: other) := fun other apart => by
    rw [put, Disk.get?_put_of_ne (by simpa using apart)]
  refine ⟨⟨tree, fills.below.tends.trans tends, fun stands => fills.below.asked ?_⟩, fun other => ?_,
    fun apart file member => ?_⟩
  · rwa [others [] named.symm] at stands
  · rw [map_append, mem_append, ← fills.names]
    by_cases same : other = more
    · subst same
      exact ⟨fun _ => .inr mem_cons_self, fun _ => ⟨contents, mode, here⟩⟩
    · rw [others other same]
      exact (or_iff_left (by simpa using same)).symm
  · rw [map_append, nodup_append] at apart
    obtain ⟨distinct, -, apart⟩ := apart
    rcases mem_append.mp member with old | new
    · have stands := fills.stands distinct file old
      rwa [others _ (apart _ (mem_map_of_mem old) more mem_cons_self)]
    · obtain rfl := mem_singleton.mp new
      have new : ∀ contents mode, disk.get? (folder ++ stagingName id :: more) ≠
          some (.file contents mode) := fun contents mode found =>
        apart more ((fills.names more).mp ⟨contents, mode, found⟩) more mem_cons_self rfl
      obtain ⟨rfl, -⟩ := opens'.write_new linkless.clear_under plain (by simp) new wrote
      exact ⟨Disk.get?_put_self (Disk.not_isFixed notDir), passable⟩

def copyOf (file : String × Bytes) : List String × Bytes :=
  ("files" :: (Path.ofText file.1).names, file.2)

theorem copyBelow_ends {copies : List (String × Bytes)}
    (inner : ∀ file ∈ copies, Path.IsInner file.1) (fills : Fills directory folder id before files disk) :
    (copyFiles ((stagingPath directory id).child "files") copies).Ends
      (fun _ => Fills directory folder id before (files ++ copies.map copyOf))
      (fun _ => Stages directory folder id before) disk := by
  induction copies generalizing files disk with
  | nil => simpa [copyFiles] using fills
  | cons file rest ih =>
    obtain ⟨name, data⟩ := file
    have own := inner (name, data) mem_cons_self
    have plain : ∀ part ∈ "files" :: (Path.ofText name).names, IsPlain part :=
      forall_mem_cons.mpr ⟨plain_files, fun _ => Margin.Holds.plain_of_inner own⟩
    have target : ((stagingPath directory id).child "files").child name =
        directory.down (stagingName id :: "files" :: (Path.ofText name).names) := by
      rw [Path.child_eq_down own, filesPath_eq, Path.down_down, Path.down_down]
      rfl
    have parent : (((stagingPath directory id).child "files").child name).parent =
        directory.down (stagingName id :: ("files" :: (Path.ofText name).names).dropLast) := by
      rw [target, Path.parent, Path.down, Path.down, dropLast_append_of_ne_nil (by simp),
        dropLast_cons_of_ne_nil (by simp)]
    rw [copyFiles, parent, target]
    have above := fun part member => plain part (dropLast_subset _ member)
    refine (ensureBelow_keeps opens above true disk fills).bind (fun _ _ fills => ?_)
      fun _ _ fills => fills.toStages
    refine (writeBelow_ends opens plain (by simp) data fills).bind (fun _ _ fills => ?_)
      fun _ _ fills => fills.toStages
    rw [map_cons, append_cons]
    exact ih (forall_mem_cons.mp inner).2 fills

end Steps

/-- What a snapshot that is not published leaves: nothing has changed but where it was staged, and if
something stands there it was there before or can be looked up. -/
structure Unpublished (directory : Path) (folder : Place) (id : Int) (before after : Disk) : Prop where
  tree : after.IsTree
  alters : (Margin.under (folder ++ [stagingName id])).Alters before after
  asked : after.get? (folder ++ [stagingName id]) ≠ none →
    before.get? (folder ++ [stagingName id]) ≠ none ∨ directory.Passable [stagingName id]

theorem Unpublished.opens (left : Unpublished directory folder id before after)
    (opens : before.Opens directory folder) : after.Opens directory folder :=
  opens.alters (left.alters.mono fun _ => Margin.inside_of_under)

section

variable (left : Unpublished directory folder id before disk)

include left

theorem Unpublished.then (stages : Stages directory folder id disk after) :
    Unpublished directory folder id before after :=
  ⟨stages.tree, left.alters.trans stages.below.tends.alters, fun stands =>
    (stages.below.asked stands).elim left.asked .inr⟩

theorem Unpublished.removeTree (opens : before.Opens directory folder)
    (removed : disk.removeTree (stagingPath directory id) = .ok after) :
    Unpublished directory folder id before after ∧
      ∀ more, after.get? (folder ++ stagingName id :: more) = none := by
  have tree := left.tree.removeTree removed
  rw [stagingPath_eq] at removed
  obtain rfl := (left.opens opens).removeTree_eq (plain_stagingName id) removed
  have gone : ∀ more, (disk.eraseTree (folder ++ [stagingName id])).get?
      (folder ++ stagingName id :: more) = none := fun more =>
    Disk.get?_eraseTree_of_below ((left.opens opens).outside _ (by simp)) ⟨more, by simp⟩
  exact ⟨⟨tree, left.alters.trans (Margin.alters_eraseTree disk _), fun stands =>
    absurd (gone []) stands⟩, gone⟩

end

/-- A snapshot that is staged has its record, and the copies if no two files have one place. -/
structure Staged (directory : Path) (folder : Place) (capture : Capture) (id : Int) (now : Float)
    (before : Disk) (record : Record) (after : Disk) : Prop
    extends Unpublished directory folder id before after where
  linkless : (Margin.under (folder ++ [stagingName id])).Linkless after
  dir : after.get? (folder ++ [stagingName id]) = some .dir
  passable : directory.Passable [stagingName id]
  recorded : recordOf capture id now = .ok record
  stored : ((orderedFiles capture.project).map fun file => (Path.ofText file.1).names).Nodup →
    ∃ text, (record.toValue >>= Value.Json.writeSpread) = .ok text ∧
      Stored after directory folder (stagingName id) text (orderedFiles capture.project)

theorem staged_of_fills (left : Unpublished directory folder id before cleared)
    (free : cleared.get? (folder ++ [stagingName id]) = none)
    (recorded : recordOf capture id now = .ok record)
    (told : (record.toValue >>= Value.Json.writeSpread) = .ok text)
    (fills : Fills directory folder id cleared
      ((orderedFiles capture.project).map copyOf ++ [(["meta.json"], Bytes.ofText text)]) after) :
    Staged directory folder capture id now before record after := by
  obtain ⟨contents, mode, file⟩ := (fills.names ["meta.json"]).mpr (by simp)
  rw [append_cons] at file
  have dir := fills.tree.dir_above file (by simp)
  refine { left.then fills.toStages with
    linkless := fills.below.tends.linkless, dir, recorded
    passable := (fills.below.asked (by simp [dir])).resolve_left fun stood => stood free
    stored := fun apart => ⟨text, told, ?_⟩ }
  have apart' : (((orderedFiles capture.project).map copyOf ++
      [(["meta.json"], Bytes.ofText text)]).map Prod.fst).Nodup := by
    rw [map_append, nodup_append]
    refine ⟨by simpa [copyOf, List.Nodup, pairwise_map] using apart, by simp, fun _ member => ?_⟩
    rw [map_map] at member
    obtain ⟨_, -, rfl⟩ := mem_map.mp member
    simp [copyOf]
  have stands := fills.stands apart'
  have copies : ∀ file ∈ orderedFiles capture.project, copyOf file ∈
      (orderedFiles capture.project).map copyOf ++ [(["meta.json"], Bytes.ofText text)] :=
    fun file member => mem_append_left _ (mem_map_of_mem member)
  have record := stands _ (mem_append_right _ mem_cons_self)
  exact ⟨record.1, fun file member => (stands _ (copies file member)).1, record.2,
    fun file member => (stands _ (copies file member)).2⟩

section

variable (opens : disk.Opens directory folder)

include opens

/-- Where a snapshot is to be staged there is nothing, or nothing can be made there. -/
theorem free_or_blocked (tree : disk.IsTree)
    (asked : disk.pathExists (stagingPath directory id) = .ok false) :
    (∀ more, disk.get? (folder ++ stagingName id :: more) = none) ∨
      ∃ fault, disk.makeDirs false ((stagingPath directory id).child "files") = (.error fault, disk) := by
  rw [filesPath_eq, Path.down_down]
  rw [stagingPath_eq] at asked
  by_cases nothing : disk.get? (folder ++ [stagingName id]) = none
  · refine .inl fun more => ?_
    rw [append_cons]
    by_cases deeper : more = []
    · rw [deeper, append_nil, nothing]
    · exact tree.get?_below (by simp [nothing]) deeper
  · right
    rcases usable : Disk.unusable? (directory.down ([stagingName id] ++ ["files"])).text with _ | fault
    · have usable' : Disk.unusable? (directory.down [stagingName id]).text = none := by
        obtain ⟨start, written⟩ := directory.exists_text_down
        rw [written _ (by simp)] at usable ⊢
        have simple : Text.IsSimple ("/".intercalate ([stagingName id] ++ ["files"])) := by
          rw [singleton_append, String.intercalate_cons_cons]
          have files : Text.IsSimple "/files" := ⟨by simp, by simp, by simp⟩
          simpa [String.append_assoc] using (isSimple_stagingName id).append files
        have replaced := Text.unusable?_replace simple (isSimple_stagingName id)
          (show Disk.unusable? (start ++ "/".intercalate ([stagingName id] ++ ["files"]) ++ "") = none by
            simpa using usable)
        simpa using replaced
      have short : Text.exceeds Disk.pathLimit (directory.down [stagingName id]).text = false := by
        refine Bool.eq_false_iff.mpr fun long => ?_
        rw [Disk.pathExists, Disk.status, usable', Disk.lookUp, if_pos long] at asked
        cases asked
      refine opens.makeDirs_behind tree (plain_stagingName id) plain_files short nothing fun found leads => ?_
      intro dir
      rw [Disk.pathExists, Disk.status, usable', leads] at asked
      simp [Except.map, dir] at asked
    · obtain ⟨fails, other⟩ := Disk.makeDir_of_unusable usable
      obtain ⟨result, same, refused⟩ := Disk.makeDirs_of_error fails other false
      exact ⟨fault, by rw [same, refused rfl]⟩

variable (inner : ∀ file ∈ orderedFiles capture.project, Path.IsInner file.1)
  (moves : ∀ record staged, Staged directory folder capture id now disk record staged →
    (do
      finish (stagingPath directory id)
      Disk.change (·.rename (stagingPath directory id) (directory.child (nameOf id)))
      return record : Step Disk Record).Ends done failed staged)
  (unpublished : ∀ failure after, Unpublished directory folder id disk after → failed failure after)

include inner moves unpublished

/-- A snapshot is staged where nothing was left, and then finished and renamed. -/
theorem staged_ends (left : Unpublished directory folder id disk cleared)
    (free : ∀ more, cleared.get? (folder ++ stagingName id :: more) = none) :
    (do
      let files := (stagingPath directory id).child "files"
      Disk.ensureDir false files
      copyFiles files (orderedFiles capture.project)
      let record ← lift ((recordOf capture id now).mapError .value)
      let text ← lift ((record.toValue >>= Value.Json.writeSpread).mapError .value)
      Disk.change (·.write ((stagingPath directory id).child "meta.json") (Bytes.ofText text))
      finish (stagingPath directory id)
      Disk.change (·.rename (stagingPath directory id) (directory.child (nameOf id)))
      return record : Step Disk Record).Ends done failed cleared := by
  have linkless : (Margin.under (folder ++ [stagingName id])).Linkless cleared := by
    refine fun place target member => Bool.eq_false_iff.mpr fun under => ?_
    obtain ⟨more, rfl⟩ := Margin.under_iff.mp under
    exact Disk.get?_ne_none member (by simpa using free more)
  have opens := left.opens opens
  have safe : ∀ failure after, Stages directory folder id cleared after → failed failure after :=
    fun failure after stages => unpublished failure after (left.then stages)
  have begun : Fills directory folder id cleared [] cleared :=
    ⟨⟨left.tree, Disk.Opens.madeBelow_refl linkless⟩, by simp [free], by simp⟩
  have files : (stagingPath directory id).child "files" = directory.down [stagingName id, "files"] := by
    rw [filesPath_eq, Path.down_down]
    rfl
  have record : (stagingPath directory id).child "meta.json" =
      directory.down [stagingName id, "meta.json"] := by
    rw [metaPath_eq, Path.down_down]
    rfl
  refine (files ▸ ensureBelow_keeps opens (by simpa using plain_files) false _ begun).bind
    (fun _ _ fills => ?_) fun _ _ fills => safe _ _ fills.toStages
  refine (copyBelow_ends opens inner fills).bind (fun _ _ fills => ?_) safe
  rw [ends_bind, ends_lift]
  refine ⟨fun record' recorded => ?_, fun _ _ => safe _ _ fills.toStages⟩
  rw [ends_bind, ends_lift]
  refine ⟨fun text told => ?_, fun _ _ => safe _ _ fills.toStages⟩
  refine (record ▸ writeBelow_ends opens (by simpa using plain_meta) (by simp) _ fills).bind
    (fun _ _ fills => ?_) fun _ _ fills => safe _ _ fills.toStages
  exact moves record' _ (staged_of_fills left (free []) (mapError_eq_ok_iff.mp recorded)
    (mapError_eq_ok_iff.mp told) fills)

/-- What comes of publishing a snapshot is what comes of renaming it once it is staged, or nothing has
changed but where it was to be staged. -/
theorem publish_ends_of (tree : disk.IsTree) :
    (publish finish directory capture id now).Ends done failed disk := by
  have same : Unpublished directory folder id disk disk := ⟨tree, .refl _ disk, .inl⟩
  rw [publish, ends_bind, Disk.ends_ask]
  refine ⟨fun there asked => ?_, fun _ _ => unpublished _ _ same⟩
  cases there with
  | true =>
    rw [if_pos rfl, ends_bind, Disk.ends_change]
    refine ⟨fun cleared removed => ?_, fun _ _ => unpublished _ _ same⟩
    obtain ⟨left, gone⟩ := same.removeTree opens removed
    exact staged_ends opens inner moves unpublished left gone
  | false =>
    rcases free_or_blocked opens tree asked with free | ⟨fault, blocked⟩
    · exact staged_ends opens inner moves unpublished same free
    · have fails : (Disk.ensureDir false ((stagingPath directory id).child "files")).runOn disk =
          (.error (.disk fault), disk) := by
        change (Except.mapError Failure.disk (disk.makeDirs false _).1, (disk.makeDirs false _).2) = _
        rw [blocked]
        rfl
      rw [if_neg (by simp), ends_bind, ends_error fails]
      exact unpublished _ _ same

end

/-! ### Publishing -/

theorem id_of_publish (ran : (publish finish directory capture id now).runOn disk = (.ok record, after)) :
    record.id = id := by
  obtain ⟨_, _, -, ran⟩ := runOn_bind_eq_ok_iff.mp ran
  obtain ⟨_, -, ran⟩ := runOn_when_eq_ok ran
  obtain ⟨_, _, -, ran⟩ := runOn_bind_eq_ok_iff.mp ran
  obtain ⟨_, _, -, ran⟩ := runOn_bind_eq_ok_iff.mp ran
  obtain ⟨_, _, recording, ran⟩ := runOn_bind_eq_ok_iff.mp ran
  obtain ⟨_, _, -, ran⟩ := runOn_bind_eq_ok_iff.mp ran
  obtain ⟨_, _, -, ran⟩ := runOn_bind_eq_ok_iff.mp ran
  obtain ⟨_, _, -, ran⟩ := runOn_bind_eq_ok_iff.mp ran
  obtain ⟨_, _, -, ran⟩ := runOn_bind_eq_ok_iff.mp ran
  cases ran
  obtain ⟨recorded, -⟩ := runOn_lift_eq_ok_iff.mp recording
  obtain ⟨tally, -, recorded⟩ := bind_eq_ok_iff.mp (mapError_eq_ok_iff.mp recorded)
  obtain ⟨counters, -, recorded⟩ := bind_eq_ok_iff.mp recorded
  cases recorded
  rfl

/-- What was staged stands under the name of its snapshot, nothing is left where it was staged, and all
else is as it was. -/
structure Renamed (directory : Path) (folder : Place) (id : Int) (before after : Disk) : Prop where
  tree : after.IsTree
  opens : after.Opens directory folder
  moved : ∀ more, after.get? (folder ++ nameOf id :: more) = before.get? (folder ++ stagingName id :: more)
  gone : after.get? (folder ++ [stagingName id]) = none
  elsewhere : ∀ place, ¬ folder ++ [stagingName id] <+: place → ¬ folder ++ [nameOf id] <+: place →
    after.get? place = before.get? place

theorem renamed_of_rename (opens : disk.Opens directory folder) (tree : disk.IsTree)
    (dir : disk.get? (folder ++ [stagingName id]) = some .dir)
    (moving : disk.rename (stagingPath directory id) (directory.child (nameOf id)) = .ok after) :
    Renamed directory folder id disk after := by
  rw [stagingPath_eq, snapshotPath_eq] at moving
  obtain rfl := opens.rename_dir (plain_stagingName id) (plain_nameOf id) (stagingName_ne id id) dir moving
  have free : ∀ name more, ¬ disk.IsFixed (folder ++ [name] ++ more) := by
    intro name more
    rw [append_assoc]
    exact opens.outside _ (by simp)
  have elsewhere : ∀ place, ¬ folder ++ [stagingName id] <+: place → ¬ folder ++ [nameOf id] <+: place →
      (disk.moveTree (folder ++ [stagingName id]) (folder ++ [nameOf id])).get? place = disk.get? place :=
    fun place apart apart' => Disk.get?_moveTree_of_not_below apart apart'
  constructor
  · refine tree.moveTree (opens.outside _ (by simp)) (beside_stagingName id) ?_ (opens.outside _ (by simp))
    rw [dropLast_concat, opens.dir tree]
  · refine opens.alters ⟨rfl, fun place out => elsewhere place ?_ ?_⟩
    · exact fun under => Bool.eq_false_iff.mp out (Margin.inside_of_under (Margin.under_iff.mpr under))
    · exact fun under => Bool.eq_false_iff.mp out (Margin.inside_of_under (Margin.under_iff.mpr under))
  · intro more
    rw [append_cons folder (nameOf id) more, append_cons folder (stagingName id) more]
    exact Disk.get?_moveTree_below (free _ more) (free _ more)
  · have beside : ¬ folder ++ [nameOf id] <+: folder ++ [stagingName id] ++ [] := by
      intro is
      have same := is.eq_of_length (by simp)
      exact stagingName_ne id id (by simpa using same.symm)
    have moved := Disk.get?_moveTree_source (free (stagingName id) []) beside
    rwa [append_nil] at moved
  · exact elsewhere

theorem Stored.renamed {files : List (String × Bytes)}
    (stored : Stored disk directory folder old text files)
    (moved : ∀ more, after.get? (folder ++ new :: more) = disk.get? (folder ++ old :: more))
    (simple : Text.IsSimple old) (simple' : Text.IsSimple new) (shorter : new.length ≤ old.length) :
    Stored after directory folder new text files := by
  constructor
  · exact (moved _).trans stored.record
  · exact fun file member => (moved _).trans (stored.copies file member)
  · exact stored.recordPath.exchange simple simple' shorter
  · exact fun file member => (stored.copyPaths file member).exchange simple simple' shorter

theorem stored_of_publish (opens : disk.Opens directory folder) (tree : disk.IsTree)
    (inner : ∀ file ∈ orderedFiles capture.project, Path.IsInner file.1)
    (apart : ((orderedFiles capture.project).map fun file => (Path.ofText file.1).names).Nodup)
    (spares : finish.Spares directory folder id)
    (published : (publish finish directory capture id now).runOn disk = (.ok record, after)) :
    ∃ text, recordOf capture id now = .ok record ∧
      (record.toValue >>= Value.Json.writeSpread) = .ok text ∧ after.IsTree ∧
      after.Opens directory folder ∧
      Stored after directory folder (nameOf id) text (orderedFiles capture.project) := by
  apply (ends_ok published).mp
  refine publish_ends_of opens inner (fun record noted left => ?_) (fun (_ : Failure) _ _ => trivial) tree
  obtain ⟨text, told, staged⟩ := left.stored apart
  rw [ends_bind]
  rcases finishing : (finish (stagingPath directory id)).runOn noted with ⟨failure | _, finished⟩
  · exact (ends_error finishing).mpr trivial
  · rw [ends_ok finishing, ends_bind, Disk.ends_change]
    refine ⟨fun after moving => ?_, fun _ _ => trivial⟩
    obtain ⟨tree, opens, kept⟩ := spares noted finished left.tree (left.opens opens) finishing
    have staged : Stored finished directory folder (stagingName id) text (orderedFiles capture.project) :=
      { staged with
        record := kept _ _ staged.record
        copies := fun file member => kept _ _ (staged.copies file member) }
    have renamed := renamed_of_rename opens tree (kept [] _ left.dir) moving
    exact ⟨text, left.recorded, told, renamed.tree, renamed.opens, staged.renamed renamed.moved
      (isSimple_stagingName id) (isSimple_nameOf id) (length_nameOf_le id)⟩

end Publish

end Archive
end Whittle
