import Whittle.Proofs.Archive.Publish
import Whittle.Proofs.Record
import Whittle.Proofs.Transaction

/-!
Snapshots read back. From a stored snapshot the archive reads the record that was written and the
bytes of every file, each of which has the digest that the record gives (`Archive.load_of_stored`).
So what is loaded after a snapshot was written is what was captured.
-/

namespace Whittle

open List

variable {name : String} {file : String × Bytes} {ids : List Int} {made : Disk}

/-! ### Digests -/

namespace Digest

theorem ascii_hexChars (width value : Nat) :
    ∀ char ∈ Text.hexChars width value, char.toNat < 128 := by
  induction width generalizing value with
  | zero => simp [Text.hexChars]
  | succ width ih =>
    have digit : ∀ value < 16, (Text.hexDigit value).toNat < 128 := by decide
    intro char member
    rw [Text.hexChars, mem_append, mem_singleton] at member
    rcases member with before | rfl
    · exact ih _ char before
    · exact digit _ (Nat.mod_lt value (by decide))

/-- A digest can be written in a record. -/
theorem isWellFormed_ofBytes (data : Bytes) : Text.IsWellFormed (ofBytes data) := by
  have ascii : ∀ char ∈ (ofBytes data).toList, char.toNat < 128 := by
    intro char member
    rw [ofBytes, String.toList_append, mem_append] at member
    rcases member with first | rest
    · revert char
      simp
    · rw [String.toList_join, mem_flatMap] at rest
      obtain ⟨word, listed, within⟩ := rest
      obtain ⟨number, -, rfl⟩ := mem_map.mp listed
      rw [wordText, String.toList_join, mem_flatMap] at within
      obtain ⟨byte, listed, within⟩ := within
      obtain ⟨index, -, rfl⟩ := mem_map.mp listed
      rw [Text.hex, String.toList_ofList] at within
      exact ascii_hexChars _ _ char within
  refine Text.isWellFormed_of_unmarked fun marks => ?_
  exact absurd (ascii _ marks) (by decide)

end Digest

namespace Archive

open Disk (Place IsPlain)

/-! ### The files of a project in order -/

section Ordered

variable {project : Project}

theorem names_orderedFiles (project : Project) :
    Listing.names (orderedFiles project) = project.paths := by
  have found : ∀ path ∈ project.paths, (Listing.get? project.files path).isSome = true := by
    intro path member
    exact Listing.mem_names_iff.mp (mem_sortNames.mp member)
  rw [orderedFiles]
  generalize project.paths = paths at found
  induction paths with
  | nil => rfl
  | cons path rest ih =>
    obtain ⟨file, there⟩ := Option.isSome_iff_exists.mp (found path mem_cons_self)
    rw [filterMap_cons, there]
    have later := ih (forall_mem_cons.mp found).2
    exact congrArg (path :: ·) later

section

variable (proper : Listing.IsProper project.files)

include proper

theorem isProper_orderedFiles :
    Listing.IsProper (orderedFiles project) := by
  rw [Listing.IsProper, names_orderedFiles]
  exact (sortBy_perm _).nodup_iff.mpr proper

theorem get?_orderedFiles (name : String) :
    Listing.get? (orderedFiles project) name = Listing.get? project.contents name := by
  cases found : project.contents.get? name with
  | none =>
    rw [Listing.get?_eq_none_iff, names_orderedFiles, Project.paths, mem_sortNames,
      ← Listing.get?_eq_none_iff]
    rw [Project.get?_contents, Option.map_eq_none_iff] at found
    exact found
  | some data =>
    rw [Project.get?_contents, Option.map_eq_some_iff] at found
    obtain ⟨file, there, rfl⟩ := found
    refine Listing.get?_of_mem (isProper_orderedFiles proper) (mem_filterMap.mpr ?_)
    refine ⟨name, mem_sortNames.mpr (Listing.mem_names_iff.mpr (by rw [there]; rfl)), ?_⟩
    rw [there]
    rfl

theorem mem_orderedFiles_iff {data : Bytes} :
    (name, data) ∈ orderedFiles project ↔ project.contents.get? name = some data := by
  rw [← get?_orderedFiles proper]
  exact (Record.get?_eq_some_iff_mem (isProper_orderedFiles proper)).symm

end

theorem tracks_of_mem_orderedFiles (member : file ∈ orderedFiles project) :
    project.tracks file.1 = true := by
  obtain ⟨name, -, taken⟩ := mem_filterMap.mp member
  obtain ⟨tracked, found, rfl⟩ := Option.map_eq_some_iff.mp taken
  exact Project.tracks_iff.mpr ⟨tracked, found⟩

/-- Tracked names that lead to places of their own do so for the copies. -/
theorem nodup_orderedFiles (proper : Listing.IsProper project.files)
    (apart : ∀ name other, project.tracks name = true → project.tracks other = true →
      (Path.ofText name).names = (Path.ofText other).names → name = other) :
    ((orderedFiles project).map fun file => (Path.ofText file.1).names).Nodup := by
  have distinct := isProper_orderedFiles proper
  rw [Listing.IsProper, Listing.names, List.Nodup, pairwise_map] at distinct
  rw [List.Nodup, pairwise_map]
  refine distinct.imp_of_mem fun {file other} member member' differ same => differ ?_
  exact apart _ _ (tracks_of_mem_orderedFiles member) (tracks_of_mem_orderedFiles member') same

end Ordered

end Archive

/-! ### Loading -/

/-- Where a run stands, told in texts that can be written down. -/
structure Progress.IsPlain (progress : Progress) : Prop where
  root : Text.IsWellFormed progress.project.root.text
  bookmark : progress.bookmark.IsPlain
  tracked : ∀ name, progress.project.tracks name = true → Text.IsWellFormed name
  removed : ∀ name ∈ progress.project.removed, Text.IsWellFormed name

/-- A snapshot read back is the one of a number that was taken where a run stood; its bookmark is one
to go on from. -/
structure Checkpoint.Restores (point : Checkpoint) (id : Int) (progress : Progress) : Prop where
  id : point.record.id = id
  root : point.record.root = progress.project.root.text
  size : point.record.size = progress.project.size
  bookmark : point.record.bookmark = { progress.bookmark with restored := true }
  removed : point.record.removed.Perm (progress.project.removed.map .text)
  counters : ∀ now, ∃ counters, Counters.ofValue (.map point.record.counters) now = .ok counters ∧
    counters.Agrees progress.counters
  proper : point.contents.IsProper
  contents : ∀ name, point.contents.get? name = progress.project.contents.get? name

namespace Archive

open Disk (Place IsPlain)

section Load

variable {archive : Archive} {disk : Disk} {directory : Path} {folder : Place} {progress : Progress}
  {id : Int} {now : Float} {record : Record} {text : String} {files : List (String × Bytes)}

theorem recordOf_capture (progress : Progress) (id : Int) (now : Float) :
    recordOf progress.capture id now = .ok {
      id
      timestamp := now
      root := progress.project.root.text
      bookmark := progress.bookmark
      size := progress.project.size
      files := (orderedFiles progress.project).map fun file => (file.1, Digest.ofBytes file.2)
      removed := progress.project.removed.map .text
      counters := progress.counters.entries now } :=
  rfl

theorem isPlain_recordOf (proper : progress.project.files.IsProper) (plain : progress.IsPlain)
    (recorded : recordOf progress.capture id now = .ok record) : record.IsPlain := by
  rw [recordOf_capture] at recorded
  cases recorded
  constructor
  · exact plain.root
  · exact plain.bookmark
  · rw [Listing.IsProper, Listing.names_map]
    exact isProper_orderedFiles proper
  · intro file member
    obtain ⟨⟨name, data⟩, listed, rfl⟩ := mem_map.mp member
    refine ⟨plain.tracked name ?_, Digest.isWellFormed_ofBytes data⟩
    exact tracks_of_mem_orderedFiles listed
  · intro value member
    obtain ⟨name, gone, rfl⟩ := mem_map.mp member
    exact ⟨name, rfl, plain.removed name gone⟩
  · exact progress.counters.exists_tally now

section

variable (opens : disk.Opens directory folder) (tree : disk.IsTree) (named : IsPlain name)
  (stored : Stored disk directory folder name text files)

include opens tree named stored

theorem readText_of_stored :
    disk.read ((directory.down [name]).child "meta.json") = .ok (Bytes.ofText text) := by
  have path : (directory.down [name]).child "meta.json" = directory.down (recordNames name) :=
    (directory.down_down [name] ["meta.json"] :)
  have plain : ∀ part ∈ recordNames name, IsPlain part := by
    simp [recordNames, named, plain_meta]
  have data := opens.read_down tree plain (by simp [recordNames]) stored.recordPath stored.record
    (by decide)
  rwa [Contents.bytes_ofBytes, ← path] at data

theorem readRecord_of_stored {again : Record} {found : Value}
    (bytes : Text.Utf8.read (Bytes.ofText text) = .ok text) (lines : Text.unifyLines text = text)
    (read : Value.Json.read text = .ok found) (valued : Record.ofValue found = .ok again) :
    readRecord disk (directory.down [name]) = .ok again := by
  rw [readRecord, readText_of_stored opens tree named stored]
  simp only [bind, Except.bind, mapError_ok, bytes, lines, read, valued]

theorem readCopy_of_stored (inner : Path.IsInner file.1) (listed : file ∈ files) :
    readCopy disk (directory.down [name]) (file.1, Digest.ofBytes file.2) = .ok file := by
  have path : ((directory.down [name]).child "files").child file.1 =
      directory.down (copyNames name file.1) := by
    rw [Path.child_eq_down inner]
    exact (((directory.down [name]).down_down ["files"] _).trans (directory.down_down [name] _) :)
  have plain : ∀ part ∈ copyNames name file.1, IsPlain part := by
    intro part member
    rcases mem_cons.mp member with rfl | member
    · exact named
    · rcases mem_cons.mp member with rfl | member
      · exact plain_files
      · exact Margin.Holds.plain_of_inner inner member
  have data := opens.read_down tree plain (by simp [copyNames]) (stored.copyPaths file listed)
    (stored.copies file listed) (by decide)
  rw [Contents.bytes_ofBytes] at data
  rw [readCopy, path, data]
  exact if_pos rfl

end

theorem load_of_stored (opens : disk.Opens archive.directory folder) (tree : disk.IsTree)
    (proper : progress.project.files.IsProper)
    (inner : ∀ name, progress.project.tracks name = true → Path.IsInner name)
    (plain : progress.IsPlain) (recorded : recordOf progress.capture id now = .ok record)
    (told : (record.toValue >>= Value.Json.writeSpread) = .ok text)
    (stored : Stored disk archive.directory folder (nameOf id) text (orderedFiles progress.project)) :
    ∃ point, archive.load disk id = .ok point ∧ point.Restores id progress := by
  obtain ⟨value, valued, written⟩ := bind_eq_ok_iff.mp told
  obtain ⟨bytes, lines, found, again, read, valued', repeats⟩ :=
    (isPlain_recordOf proper plain recorded).exists_read valued written
  have readable := readRecord_of_stored opens tree (plain_nameOf id) stored bytes lines read valued'
  rw [recordOf_capture] at recorded
  cases recorded
  have files : ∀ name, again.files.get? name =
      (progress.project.contents.get? name).map Digest.ofBytes := by
    intro name
    rw [repeats.files, Listing.get?_map, get?_orderedFiles proper]
  -- Every file of the record has a copy of the bytes that were accepted.
  have copies : ∀ file ∈ again.files, readCopy disk (archive.directory.down [nameOf id]) file =
      .ok (file.1, (progress.project.contents.get? file.1).getD []) := by
    rintro ⟨name, digest⟩ member
    have listed := (files name).symm.trans (Listing.get?_of_mem repeats.proper member)
    obtain ⟨data, there, same⟩ := Option.map_eq_some_iff.mp listed
    have tracked := (mem_orderedFiles_iff proper).mpr there
    have copy := readCopy_of_stored opens tree (plain_nameOf id) stored
      (inner_of_tracked inner _ tracked) tracked
    rw [there, Option.getD_some, ← same]
    exact copy
  refine ⟨{
    record := again
    contents := again.files.map fun file =>
      (file.1, (progress.project.contents.get? file.1).getD [])
    path := archive.directory.down [nameOf id] }, ?_, ?_⟩
  · rw [load, snapshotPath_eq, readable]
    dsimp only
    rw [mapM_eq_ok copies]
    rfl
  · constructor
    · exact repeats.id
    · exact repeats.root
    · exact repeats.size
    · exact repeats.bookmark
    · exact repeats.removed
    · exact fun now => Counters.exists_ofValue repeats.counters now
    · rw [Listing.IsProper, Listing.names, map_map]
      exact repeats.proper
    · intro name
      rw [Listing.get?_map_named (fun name _ => (progress.project.contents.get? name).getD []),
        files]
      cases progress.project.contents.get? name with
      | none => rfl
      | some data => rfl

/-- Before a snapshot is published its directory is made, and it is given the number after all that
are there or have been. -/
structure Begins (archive : Archive) (disk : Disk) (id : Int) (made : Disk) : Prop where
  making : disk.makeDirs true archive.directory = (.ok (), made)
  number : ∃ ids, archive.ids made = .ok ids ∧ id = ids.foldl max archive.lastId + 1

theorem foldl_max_ge (ids : List Int) (least : Int) : least ≤ ids.foldl max least := by
  induction ids generalizing least with
  | nil => exact Int.le_refl _
  | cons id rest ih => exact Int.le_trans (Int.le_max_left least id) (ih (max least id))

theorem le_foldl_max (member : id ∈ ids) (least : Int) : id ≤ ids.foldl max least := by
  induction ids generalizing least with
  | nil => cases member
  | cons first rest ih =>
    rcases mem_cons.mp member with rfl | later
    · exact Int.le_trans (Int.le_max_right least id) (foldl_max_ge rest _)
    · exact ih later _

/-- A number that is given is above all that were given before. -/
theorem Begins.later (begins : archive.Begins disk id made) : archive.lastId < id := by
  obtain ⟨ids, -, rfl⟩ := begins.number
  exact Int.lt_add_one_of_le (foldl_max_ge ids _)

theorem Begins.above (begins : archive.Begins disk id made)
    (found : archive.ids made = .ok ids) : ∀ other ∈ ids, other < id := by
  obtain ⟨_, found', rfl⟩ := begins.number
  cases found.symm.trans found'
  exact fun other member => Int.lt_add_one_of_le (le_foldl_max member _)

/-- After a failure of the operating system what was staged is removed, if it can be. -/
def Clears (staging : Path) (failure : Failure) (before after : Disk) : Prop :=
  before.removeTree staging = .ok after ∨ after = before ∧
    (failure.system?.isSome = true → ∃ fault, before.removeTree staging = .error fault)

theorem begin_ends (archive : Archive) (disk : Disk) :
    (do onDisk (Disk.ensureDir true archive.directory); allocate : Step (Archive × Disk) Int).Ends
      (fun id pair => archive.Begins disk id pair.2 ∧ pair.1 = { archive with lastId := id })
      (fun _ pair => pair = (archive, (disk.makeDirs true archive.directory).2)) (archive, disk) := by
  rw [ends_bind, onDisk, ends_within]
  change Step.Outcome _ _ ((disk.makeDirs true archive.directory).1.mapError .disk,
    (disk.makeDirs true archive.directory).2)
  rcases making : disk.makeDirs true archive.directory with ⟨fault | _, made⟩
  · rfl
  · change allocate.Ends _ _ (archive, made)
    rw [allocate, ends_get_bind]
    dsimp only
    rw [ends_bind, ends_lift]
    refine ⟨fun ids found => ?_, fun _ _ => rfl⟩
    rw [ends_bind, note, ends_modify, ends_pure]
    exact ⟨⟨making, ids, found, rfl⟩, rfl⟩

/-- What comes of writing a snapshot: it is published under its number, or no number was given, or
publishing it failed and what was staged is cleared away. -/
theorem write_parts (finish : Finish) (capture : Capture) (now : Float) (archive : Archive)
    (disk : Disk) :
    (write finish capture now).Ends
      (fun record pair => ∃ made, archive.Begins disk record.id made ∧
        pair.1 = { archive with lastId := record.id } ∧
        (publish finish archive.directory capture record.id now).runOn made = (.ok record, pair.2))
      (fun failure pair => pair = (archive, (disk.makeDirs true archive.directory).2) ∨
        ∃ id made cause left, archive.Begins disk id made ∧ pair.1 = { archive with lastId := id } ∧
          failure = unwritable archive.directory cause ∧
          (publish finish archive.directory capture id now).runOn made = (.error cause, left) ∧
          Clears (stagingPath archive.directory id) cause left pair.2)
      (archive, disk) := by
  rw [write, ends_get_bind]
  dsimp only
  rw [ends_bind, ends_attempt]
  refine (begin_ends archive disk).imp ?_ fun _ _ same => .inl same
  rintro id ⟨_, made⟩ ⟨begins, rfl⟩
  dsimp only
  rw [ends_bind, ends_attempt, onDisk, ends_within]
  rcases ran : (publish finish archive.directory capture id now).runOn made with
    ⟨cause | record, left⟩
  · rw [ends_error ran]
    dsimp only
    split
    · rw [ends_bind, ends_attempt, onDisk, ends_within, Disk.ends_change]
      constructor
      · exact fun _ removed => .inr ⟨id, made, cause, left, begins, rfl, rfl, ran, .inl removed⟩
      · exact fun fault fails => .inr ⟨id, made, cause, left, begins, rfl, rfl, ran,
          .inr ⟨rfl, fun _ => ⟨fault, fails⟩⟩⟩
    · next other => exact .inr ⟨id, made, cause, left, begins, rfl, rfl, ran,
        .inr ⟨rfl, fun system => absurd system other⟩⟩
  · rw [ends_ok ran]
    obtain rfl := id_of_publish ran
    exact ⟨made, begins, rfl, ran⟩

theorem exists_of_write {archive' : Archive} {after : Disk} {finish : Finish} {capture : Capture}
    (wrote : (write finish capture now).runOn (archive, disk) = (.ok record, (archive', after))) :
    ∃ made id, disk.makeDirs true archive.directory = (.ok (), made) ∧
      (publish finish archive.directory capture id now).runOn made = (.ok record, after) ∧
      archive' = { archive with lastId := id } := by
  obtain ⟨made, begins, same, ran⟩ :=
    (ends_ok wrote).mp (write_parts finish capture now archive disk)
  exact ⟨made, record.id, begins.making, ran, same⟩

/-- Loading a snapshot undoes writing it. The snapshot directory is opened by its path once it is
made, the tracked names lead down from there to places of their own, and nothing is done to the
staged snapshot that would change it. Then a snapshot that was written is loaded with the contents of
all tracked files, and with all that the record tells of where the run stood. -/
theorem load_write {archive' : Archive} {after : Disk} {finish : Finish} (tree : disk.IsTree)
    (opens : (disk.makeDirs true archive.directory).2.Opens archive.directory folder)
    (proper : Listing.IsProper progress.project.files)
    (inner : ∀ name, progress.project.tracks name = true → Path.IsInner name)
    (apart : ∀ name other, progress.project.tracks name = true →
      progress.project.tracks other = true →
      (Path.ofText name).names = (Path.ofText other).names → name = other)
    (plain : progress.IsPlain) (spares : ∀ id, finish.Spares archive.directory folder id)
    (wrote : (write finish progress.capture now).runOn (archive, disk) =
      (.ok record, (archive', after))) :
    ∃ point, archive'.load after record.id = .ok point ∧ point.Restores record.id progress := by
  obtain ⟨made, id, making, published, rfl⟩ := exists_of_write wrote
  have tree' := tree.makeDirs true archive.directory
  rw [making] at opens tree'
  obtain ⟨text, recorded, told, tree'', opens', stored⟩ := stored_of_publish opens tree'
    (inner_of_tracked inner) (nodup_orderedFiles proper apart) (spares id) published
  have same : record.id = id := by
    have recorded' := recorded
    rw [recordOf_capture] at recorded'
    cases recorded'
    rfl
  rw [same]
  exact load_of_stored opens' tree'' proper inner plain recorded told stored

end Load

end Archive

/-! ### Snapshots of a small project -/

namespace Sample

/-- A run on a project of two files, one of them in a directory; a third one is removed. -/
def halfway : Progress where
  project :=
    { project with files := [("a", fileOf lines), ("d/é", fileOf [])], removed := ["b"] }
  bookmark := { passIndex := 1, path := .text "a", position := some [2, 0] }
  counters := { accepted := 3, rejected := 5, initialSize := 9 }

def archive : Archive :=
  { directory := Path.ofText "snaps" }

theorem disk_isTree : disk.IsTree :=
  Disk.isTree_of_entries (by decide)

theorem snaps_opens {disk : Disk} (home : disk.home = ["work"])
    (dir : disk.get? ["work", "snaps"] = some .dir) :
    disk.Opens (Path.ofText "snaps") ["work", "snaps"] := by
  constructor
  · refine ⟨Disk.linkLimit, ?_⟩
    have dir : (disk.without (.inside ["work", "snaps"])).get? ["work", "snaps"] = some .dir := by
      rw [Margin.get?_without (by decide), dir]
    rw [Disk.startOf, if_neg (by decide), home, show (Path.ofText "snaps").names = ["snaps"] by decide,
      Disk.arrive_cons_dir ⟨by decide, by decide⟩ (by decide) dir, Disk.arrive]
    rfl
  · intro more deeper fixed
    have above := ( isPrefixOf_iff_prefix.mp fixed).length_le
    simp [home] at above

theorem archive_opens :
    (disk.makeDirs true archive.directory).2.Opens archive.directory ["work", "snaps"] :=
  snaps_opens (by decide +kernel) (by decide +kernel)

theorem halfway_isProper : halfway.project.files.IsProper := by
  unfold Listing.IsProper
  decide

theorem halfway_names (tracked : halfway.project.tracks name = true) :
    name = "a" ∨ name = "d/é" := by
  have member := Listing.mem_names_iff.mpr tracked
  simpa [halfway, project, Listing.names] using member

theorem halfway_inner (name : String) (tracked : halfway.project.tracks name = true) :
    Path.IsInner name := by
  rcases halfway_names tracked with rfl | rfl <;> exact ⟨by decide, by decide, by decide⟩

theorem halfway_isPlain : halfway.IsPlain := by
  have unmarked : ∀ text ∈ ["project", "a", "d/é", "b"], Text.IsWellFormed text := by
    intro text member
    refine Text.isWellFormed_of_unmarked ?_
    revert text
    decide
  constructor
  · exact unmarked _ (by decide)
  · exact .inr ⟨"a", rfl, unmarked _ (by decide)⟩
  · intro name tracked
    exact unmarked name (by rcases halfway_names tracked with rfl | rfl <;> decide)
  · intro name gone
    exact unmarked name (by simp_all [halfway])

theorem load_write_halfway : ∃ record archive' after point,
    (Archive.write (fun _ => pure ()) halfway.capture 0.0).runOn (archive, disk) =
        (.ok record, (archive', after)) ∧
      archive'.load after record.id = .ok point ∧ point.Restores record.id halfway := by
  have writes : (Archive.write (fun _ => pure ()) halfway.capture 0.0).Ends (fun _ _ => True)
      (fun _ _ => False) (archive, disk) := by
    decide +kernel
  obtain ⟨record, ⟨archive', after⟩, wrote, -⟩ := writes.exists_ok
  obtain ⟨point, loaded, restores⟩ := Archive.load_write disk_isTree archive_opens halfway_isProper
    (fun name tracked => by
      rcases halfway_names tracked with rfl | rfl <;> exact ⟨by decide, by decide, by decide⟩)
    (fun name other tracked tracked' => by
      rcases halfway_names tracked with rfl | rfl <;> rcases halfway_names tracked' with rfl | rfl <;>
        decide)
    halfway_isPlain (fun _ => Archive.spares_pure) wrote
  exact ⟨record, archive', after, point, wrote, loaded, restores⟩

/-- A directory that is found through one in which a snapshot is going to be staged. -/
def winding : Archive :=
  { directory := Path.ofText "snaps/.000001.partial/.." }

/-- A snapshot can be written where it cannot be loaded. The way to the directory leads through the
place at which the snapshot is staged, and so it is gone once the snapshot is published. -/
theorem load_winding_fails : ∃ record archive' after,
    (Archive.write (fun _ => pure ()) halfway.capture 0.0).runOn (winding, disk) =
        (.ok record, (archive', after)) ∧ ∀ point, archive'.load after record.id ≠ .ok point := by
  have writes : (Archive.write (fun _ => pure ()) halfway.capture 0.0).Ends
      (fun record pair => (pair.1.load pair.2 record.id).isOk = false)
      (fun _ _ => False) (winding, disk) := by
    decide +kernel
  obtain ⟨record, ⟨archive', after⟩, wrote, fails⟩ := writes.exists_ok
  refine ⟨record, archive', after, wrote, fun point loaded => ?_⟩
  rw [loaded] at fails
  cases fails

end Sample
end Whittle
