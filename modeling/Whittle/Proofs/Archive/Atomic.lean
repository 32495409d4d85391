import Whittle.Proofs.Archive.Retention

/-!
Snapshots are all or nothing. If a snapshot cannot be written then all that has digits for its name is as
it was, what was staged is gone or cannot be removed, and the archive knows of no new snapshot
(`Archive.Undone`). If its record is returned then it is complete: the others that were too many are
removed, and it is not one of them (`Archive.IsComplete`, `Archive.offer_completes_or_undoes`).
-/

namespace Whittle

open List
namespace Archive

open Disk (Place IsPlain)

variable {archive : Archive} {directory : Path} {folder : Place} {disk made after : Disk}
  {finish : Finish} {capture : Capture} {id other : Int} {ids : List Int} {name : String}

/-- Nothing is done to a staged snapshot, but the operating system may fail. -/
def Finish.IsIdle (finish : Finish) : Prop :=
  ∀ path disk, (finish path).Ends (fun _ after => after = disk)
    (fun failure after => after = disk ∧ failure.system?.isSome = true) disk

/-- The archive and the disk after a snapshot could not be written. Nothing in the directory has changed,
or what was staged under the number that was given is gone or cannot be removed. -/
structure Undone (archive : Archive) (folder : Place) (disk : Disk) (pair : Archive × Disk) : Prop where
  snapshots : ∀ name more, IsNumeral name →
    pair.2.get? (folder ++ name :: more) = disk.get? (folder ++ name :: more)
  staged : (∀ more, more ≠ [] → pair.2.get? (folder ++ more) = disk.get? (folder ++ more)) ∨
    pair.2.get? (folder ++ [stagingName pair.1.lastId]) = none ∨
    ∃ fault, pair.2.removeTree (stagingPath archive.directory pair.1.lastId) = .error fault
  knows : pair.1 = { archive with lastId := pair.1.lastId }
  soon : ∀ later, pair.1.tooSoon later = archive.tooSoon later

/-- The snapshot of a record is complete: the text of the record is there, and for each tracked file the
record has a digest, and there is a copy that has it. -/
structure IsComplete (archive : Archive) (project : Project) (record : Record) (disk : Disk) : Prop where
  text : ∃ text, (record.toValue >>= Value.Json.writeSpread) = .ok text ∧
    disk.read ((archive.directory.child (nameOf record.id)).child "meta.json") = .ok (Bytes.ofText text)
  copies : ∀ name data, project.contents.get? name = some data →
    (name, Digest.ofBytes data) ∈ record.files ∧
      IsCopy disk (archive.directory.child (nameOf record.id)) (name, Digest.ofBytes data) (name, data)

/-! ### Hooks that only fail -/

namespace Finish.IsIdle

section

variable (idle : finish.IsIdle)

include idle

theorem keeps (path : Path) (property : Disk → Prop) : (finish path).Keeps property :=
  fun disk so => (idle path disk).imp (fun _ _ same => same ▸ so) fun _ _ ended => ended.1 ▸ so

theorem confined (path : Path) : (finish path).Confined [] fun _ => True := by
  intro disk _
  refine (idle path disk).imp (fun _ _ _ => trivial) fun failure _ ended => ⟨?_, trivial⟩
  refine Failure.isAmong_of_none ?_
  cases failure with
  | disk fault => rfl
  | _ => cases ended.2

theorem staysIn : finish.StaysIn directory folder :=
  ⟨fun path => idle.keeps path _, fun _ _ _ _ _ _ => idle.keeps _ _⟩

theorem spares : finish.Spares directory folder id := by
  intro disk after tree opens ran
  obtain rfl := (ends_ok ran).mp (idle (stagingPath directory id) disk)
  exact ⟨tree, opens, fun _ _ found => found⟩

end

end Finish.IsIdle

/-! ### What is not published -/

theorem undone_of_publish {cause : Failure} {left : Disk} {now : Float} {text reason : String}
    (tree : disk.IsTree) (approaches : disk.Approaches archive.directory folder)
    (inner : ∀ file ∈ orderedFiles capture.project, Path.IsInner file.1) (idle : finish.IsIdle)
    (begins : archive.Begins disk id made)
    (is : unwritable archive.directory cause = .archive (.unwritable text reason))
    (ran : (publish finish archive.directory capture id now).runOn made = (.error cause, left))
    (clears : Clears (stagingPath archive.directory id) cause left after) :
    Undone archive folder disk ({ archive with lastId := id }, after) := by
  have opens := approaches.opens_of_makeDirs tree begins.making
  have tree' := tree.makeDirs true archive.directory
  rw [begins.making] at tree'
  have unpublished := (ends_error ran).mp (publish_ends opens tree' inner idle.staysIn id now)
  refine ⟨fun name more numeral => ?_, .inr ?_, rfl, fun _ => rfl⟩
  · have same := approaches.get?_makeDirs tree (cons_ne_nil name more)
    rw [begins.making] at same
    rw [(unpublished.clears opens clears).get?_eq (numeral.ne_stagingName id), same]
  · rcases clears with removed | ⟨rfl, kept⟩
    · exact .inl ((unpublished.removeTree opens removed).2 [])
    · have among := ((ends_error ran).mp (confined_publish Disk.isLasting_true.toLastsAt allows_true
        idle.confined id now made trivial)).1
      refine .inr (kept (Option.isSome_iff_ne_none.mpr fun none => ?_))
      obtain rfl : cause = .archive (.unwritable text reason) := by
        rwa [unwritable, none] at is
      cases among.title?_eq_none

/-! ### What is published stays -/

theorem natural_of_nameOf_eq (natural : 0 ≤ id) (same : nameOf other = nameOf id) : 0 ≤ other := by
  refine Int.not_lt.mp fun negative => ?_
  have sign : '-' ∈ (nameOf id).toList := by
    rw [← same, nameOf, if_pos negative]
    simp
  exact absurd (isDigit_of_mem_nameOf natural sign) (by decide)

section Published

variable (published : Published archive.directory folder id made after)
  (opens : made.Opens archive.directory folder) (tree : made.IsTree)
  (passable : archive.directory.Passable [])
  (unlinked : ∀ name target, IsNumeral name → made.get? (folder ++ [name]) ≠ some (.link target))

include published opens tree passable unlinked

theorem Published.of_isCounted (counted : archive.IsCounted after name) (old : name ≠ nameOf id) :
    archive.IsCounted made name := by
  have numeral : IsNumeral name := ⟨counted.ne_empty, counted.digits⟩
  have same := published.get?_eq (numeral.ne_stagingName id) old []
  have dir := counted.dir
  rw [numeral.child_eq] at dir
  obtain ⟨usable, found, leads, dir⟩ := Disk.lookUp_of_isDir dir
  have clear : after.Clear folder [name] :=
    Disk.clear_singleton fun target => same ▸ unlinked name target numeral
  obtain ⟨rfl, short, fits⟩ :=
    published.opens.lookUp_down clear (by simpa using numeral.plain) (by simp) leads
  rw [same] at dir
  refine ⟨⟨_, opens.list_eq tree passable, ?_⟩, ?_, numeral.ne_empty, numeral.digits⟩
  · exact (Disk.mem_namesIn_iff_get? (opens.outside _ (by simp))).mpr (by simp [dir])
  · rw [numeral.child_eq, opens.isDir_name numeral.plain ⟨usable, short, fits⟩ (by simp [dir])]
    simp [dir]

/-- A published snapshot has the highest number, and is not among those that are too many. -/
theorem Published.kept {many : Nat} (natural : 0 ≤ id) (distinct : after.IsDistinct)
    (above : ∀ other, archive.Has made other → other < id)
    (ample : archive.retention.lt (.int 1) = false) (found : archive.ids after = .ok ids)
    (counts : surplus archive.retention ids.length = .ok many) :
    ∀ other ∈ ids.take many, nameOf other ≠ nameOf id := by
  have fits := published.passable.exchange (isSimple_stagingName id) (isSimple_nameOf id)
    (length_nameOf_le id)
  have read := toInteger_nameOf natural (fits.fits (nameOf id) (by simp))
  have known : ∀ name other, archive.IsCounted after name → (Value.text name).toInteger = .ok other →
      other ≤ id ∧ (other = id → name = nameOf id) := by
    intro name other counted spelled
    by_cases new : name = nameOf id
    · rw [new] at spelled
      cases read.symm.trans spelled
      exact ⟨Int.le_refl _, fun _ => new⟩
    · have below := above other
        ⟨name, published.of_isCounted opens tree passable unlinked counted new, spelled⟩
      exact ⟨Int.le_of_lt below, fun same => absurd same (Int.ne_of_lt below)⟩
  have search := archive.search_ids after
  rw [found] at search
  cases search with
  | found _ _ _ sorted members once =>
    have once := once distinct id fun name other counted counted' spelled spelled' =>
      ((known name id counted spelled).2 rfl).trans ((known other id counted' spelled').2 rfl).symm
    intro other taken same
    obtain rfl := nameOf_inj (natural_of_nameOf_eq natural same) natural same
    -- Were it taken, then another of its number would be left.
    have whole := take_append_drop many ids
    obtain ⟨last, left⟩ : ∃ last, last ∈ ids.drop many := by
      refine exists_mem_of_ne_nil _ fun none => ?_
      have long := drop_eq_nil_iff.mp none
      have some := length_pos_of_mem (mem_of_mem_take taken)
      obtain ⟨count, length⟩ := Nat.exists_eq_add_of_lt some
      rw [Nat.zero_add] at length
      rw [length] at counts long
      have := surplus_le ample counts
      omega
    rw [← whole] at sorted once
    obtain ⟨name, counted, spelled⟩ := (members last).mp (mem_of_mem_drop left)
    have high := (pairwise_append.mp sorted).2.2 other taken last left
    obtain rfl := Int.le_antisymm high (known name last counted spelled).1
    rw [count_append] at once
    have := count_pos_iff.mpr taken
    have := count_pos_iff.mpr left
    omega

end Published

/-- Once a snapshot is written others are removed, and that does not fail as writing one does. -/
theorem evict_removes (archive : Archive) (opens : disk.Opens archive.directory folder)
    (tree : disk.IsTree) (distinct : disk.IsDistinct) :
    evict.Ends
      (fun _ pair => ∃ ids many, archive.ids disk = .ok ids ∧
        surplus archive.retention ids.length = .ok many ∧
        Removed archive.directory folder (ids.take many) disk pair.2)
      (fun failure _ => ∀ text reason, failure ≠ .archive (.unwritable text reason))
      (archive, disk) := by
  rw [evict, ends_get_bind]
  dsimp only
  rw [ends_bind, ends_lift]
  refine ⟨fun ids found => ?_, fun failure fails text reason same => ?_⟩
  · rw [ends_bind, ends_lift]
    refine ⟨fun many counts => ?_, fun failure fails text reason same => ?_⟩
    · rw [onDisk, ends_within]
      refine (removeSnapshots_ends (.refl opens tree distinct)).imp ?_ ?_
      · exact fun _ _ removed => ⟨ids, many, found, counts, removed⟩
      · rintro _ _ ⟨_, _, _, other⟩
        exact other
    · unfold surplus at fails
      split at fails
      · cases fails
      · split at fails
        · cases fails
          cases same
        · cases fails
  · have untitled := (confined_ids archive disk failure fails).title?_eq_none
    rw [same] at untitled
    cases untitled

theorem files_of_recordOf {record : Record} {now : Float}
    (recorded : recordOf capture id now = .ok record) : record.files =
      (orderedFiles capture.project).map fun file => (file.1, Digest.ofBytes file.2) := by
  obtain ⟨tally, -, recorded⟩ := bind_eq_ok_iff.mp recorded
  obtain ⟨counters, -, recorded⟩ := bind_eq_ok_iff.mp recorded
  cases recorded
  rfl

theorem isComplete_of_stored {record : Record} {text : String} {now : Float}
    (opens : disk.Opens archive.directory folder) (tree : disk.IsTree)
    (proper : capture.project.files.IsProper)
    (inner : ∀ name, capture.project.tracks name = true → Path.IsInner name)
    (recorded : recordOf capture record.id now = .ok record)
    (told : (record.toValue >>= Value.Json.writeSpread) = .ok text)
    (stored : Stored disk archive.directory folder (nameOf record.id) text
      (orderedFiles capture.project)) :
    IsComplete archive capture.project record disk := by
  constructor
  · rw [snapshotPath_eq]
    exact ⟨text, told, readText_of_stored opens tree (plain_nameOf _) stored⟩
  · intro name data known
    have listed := (mem_orderedFiles_iff proper).mpr known
    constructor
    · rw [files_of_recordOf recorded]
      exact mem_map_of_mem (f := fun file => (file.1, Digest.ofBytes file.2)) listed
    · have copy := readCopy_of_stored opens tree (plain_nameOf _) stored
        (inner_of_tracked inner _ listed) listed
      rw [snapshotPath_eq]
      exact readCopy_eq_ok_iff.mp copy

/-- Whatever is on the disk, let an archive that keeps at least one snapshot have a directory that its
path approaches, and let the tracked names lead down to places of their own. If a snapshot cannot be
written then that is undone; the archive does not wait for the next one on its account. If a record is
returned, and no name made of digits is that of a link, then its snapshot is complete. -/
theorem offer_completes_or_undoes (tree : disk.IsTree) (distinct : disk.IsDistinct)
    (approaches : disk.Approaches archive.directory folder)
    (ample : archive.retention.lt (.int 1) = false) (natural : 0 ≤ archive.lastId)
    (proper : Listing.IsProper capture.project.files)
    (inner : ∀ name, capture.project.tracks name = true → Path.IsInner name)
    (apart : ∀ name other, capture.project.tracks name = true → capture.project.tracks other = true →
      (Path.ofText name).names = (Path.ofText other).names → name = other)
    (idle : finish.IsIdle) (now : Float) :
    (offer finish capture now).Ends
      (fun answer pair => ∀ record, answer = some record →
        (∀ name target, IsNumeral name → disk.get? (folder ++ [name]) ≠ some (.link target)) →
        IsComplete archive capture.project record pair.2)
      (fun failure pair => ∀ text reason, failure = .archive (.unwritable text reason) →
        Undone archive folder disk pair)
      (archive, disk) := by
  have inner' := inner_of_tracked inner
  rw [offer, Step.ends_bind, Step.ends_get, Step.ends_bind, Step.ends_lift]
  refine ⟨fun soon _ => ?_, fun failure fails text reason same => ?_⟩
  · rw [Step.ends_ite]
    refine ⟨fun _ _ same => (by cases same), fun _ => ?_⟩
    refine (write_parts finish capture now archive disk).bind ?_ ?_
    · rintro record ⟨_, left⟩ ⟨made, begins, rfl, ran⟩
      have opens := approaches.opens_of_makeDirs tree begins.making
      have tree' := tree.makeDirs true archive.directory
      have distinct' := distinct.makeDirs true archive.directory
      rw [begins.making] at tree' distinct'
      have published := (Step.ends_ok ran).mp
        (publish_ends opens tree' inner' idle.staysIn record.id now)
      obtain ⟨text, recorded, told, tree'', opens', stored⟩ := stored_of_publish opens tree' inner'
        (nodup_orderedFiles proper apart) idle.spares ran
      rw [Step.ends_bind, note, Step.ends_modify]
      have distinct'' : left.IsDistinct :=
        (publish_keeps_distinct (fun path => idle.keeps path _) _ _ _).of_runOn distinct' ran
      have evicted := evict_removes { archive with
        lastId := record.id, lastWritten := some now, written := archive.written ++ [record.id] }
        opens' tree'' distinct''
      refine evicted.bind ?_ ?_
      · rintro _ ⟨_, ended⟩ ⟨ids, many, found, counts, removed⟩ _ same unlinked
        cases same
        have kept := published.kept opens tree' (Disk.passable_of_makeDirs begins.making)
          (fun name target numeral => ?_)
          (Int.le_trans natural (Int.le_of_lt begins.later)) distinct'' (fun other has => ?_) ample
          found counts
        · exact isComplete_of_stored removed.opens removed.tree proper inner recorded told
            (stored.congr (removed.others _ kept))
        · have same := approaches.get?_makeDirs tree (List.cons_ne_nil name [])
          rw [begins.making] at same
          exact same ▸ unlinked name target numeral
        · obtain ⟨ids, found, -⟩ := begins.number
          exact begins.above found other ((mem_ids_iff found).mpr has)
      · exact fun _ _ other text reason same => absurd same (other text reason)
    · rintro failure pair (rfl | ⟨id, made, cause, left, begins, same, rfl, ran, clears⟩) text reason is
      · refine ⟨fun name more _ => ?_, .inl fun more deeper => ?_, rfl, fun _ => rfl⟩
        · exact approaches.get?_makeDirs tree (List.cons_ne_nil name more)
        · exact approaches.get?_makeDirs tree deeper
      · obtain ⟨_, after⟩ := pair
        obtain rfl := same
        exact undone_of_publish tree approaches inner' idle begins is ran clears
  · rw [same] at fails
    cases asked : archive.tooSoon now with
    | ok is =>
      rw [asked] at fails
      cases fails
    | error fault =>
      rw [asked] at fails
      cases fails

end Archive

namespace Sample

open Archive

/-- An archive of which the next number is that of the file on the shelves. -/
def advanced : Archive :=
  { couple with lastId := 8 }

def isUnwritable : Failure → Bool
  | .archive (.unwritable _ _) => true
  | _ => false

theorem eq_of_isUnwritable {failure : Failure} (is : isUnwritable failure = true) :
    ∃ text reason, failure = .archive (.unwritable text reason) := by
  unfold isUnwritable at is
  split at is
  · exact ⟨_, _, rfl⟩
  · cases is

/-- On the shelves a snapshot is taken, and none if the next number is that of the file there. -/
theorem offer_completes_or_undoes_shelves :
    (∃ record pair, (offer (fun _ => pure ()) halfway.capture 0.0).runOn (couple, shelves) =
      (.ok (some record), pair) ∧ record.id = 8 ∧ IsComplete couple halfway.project record pair.2) ∧
    ∃ failure pair, (offer (fun _ => pure ()) halfway.capture 0.0).runOn (advanced, shelves) =
      (.error failure, pair) ∧ pair.1.lastId = 9 ∧
      Undone advanced ["work", "snaps"] shelves pair := by
  have inner : ∀ name, halfway.capture.project.tracks name = true → Path.IsInner name := by
    intro name tracked
    rcases halfway_names tracked with rfl | rfl <;> exact ⟨by decide, by decide, by decide⟩
  have apart : ∀ name other, halfway.capture.project.tracks name = true →
      halfway.capture.project.tracks other = true →
      (Path.ofText name).names = (Path.ofText other).names → name = other := by
    intro name other tracked tracked'
    rcases halfway_names tracked with rfl | rfl <;> rcases halfway_names tracked' with rfl | rfl <;>
      decide
  have idle : Finish.IsIdle fun _ => pure () := fun _ _ => rfl
  constructor
  · have takes : (offer (fun _ => pure ()) halfway.capture 0.0).Ends
        (fun answer _ => answer.map Record.id = some 8) (fun _ _ => False) (couple, shelves) := by
      decide +kernel
    obtain ⟨answer, pair, ran, known⟩ := takes.exists_ok
    obtain ⟨record, rfl, same⟩ := Option.map_eq_some_iff.mp known
    have completes := (Step.ends_ok ran).mp (offer_completes_or_undoes shelves_tidy.tree
      shelves_tidy.distinct shelves_tidy.approaches (by decide) (by decide) halfway_isProper inner apart
      idle 0.0)
    exact ⟨record, pair, ran, same, completes record rfl shelves_tidy.unlinked⟩
  · have fails : (offer (fun _ => pure ()) halfway.capture 0.0).Ends (fun _ _ => False)
        (fun failure pair => isUnwritable failure = true ∧ pair.1.lastId = 9)
        (advanced, shelves) := by
      decide +kernel
    obtain ⟨failure, pair, ran, is, number⟩ := fails.exists_error
    have approaches : shelves.Approaches advanced.directory ["work", "snaps"] := shelves_tidy.approaches
    have undoes := (Step.ends_error ran).mp (offer_completes_or_undoes shelves_tidy.tree
      shelves_tidy.distinct approaches (by decide) (by decide) halfway_isProper inner apart idle 0.0)
    obtain ⟨text, reason, same⟩ := eq_of_isUnwritable is
    exact ⟨failure, pair, ran, number, undoes text reason same⟩

/-- If a snapshot fails then another one appears where the name of a file leads to it. A record is
returned without a complete snapshot where a link has the name of a later one, or where the way to the
directory leads through the place at which the snapshot is staged. -/
theorem offer_astray_differs :
    (∃ text reason pair, (offer (fun _ => pure ()) outward.capture 0.0).runOn (advanced, shelves) =
      (.error (.archive (.unwritable text reason)), pair) ∧
      ¬ Undone advanced ["work", "snaps"] shelves pair) ∧
    (∃ record pair, (offer (fun _ => pure ()) halfway.capture 0.0).runOn
        ({ archive with retention := .int 1 }, pointed) = (.ok (some record), pair) ∧
      ¬ IsComplete { archive with retention := .int 1 } halfway.project record pair.2) ∧
    ∃ record pair, (offer (fun _ => pure ()) halfway.capture 0.0).runOn (winding, disk) =
      (.ok (some record), pair) ∧ ¬ IsComplete winding halfway.project record pair.2 := by
  have lacks : ∀ {archive disk}, (offer (fun _ => pure ()) halfway.capture 0.0).Ends
      (fun answer pair => (answer.map fun record => (pair.2.read
        ((archive.directory.child (nameOf record.id)).child "meta.json")).isOk) = some false)
      (fun _ _ => False) (archive, disk) →
      ∃ record pair, (offer (fun _ => pure ()) halfway.capture 0.0).runOn (archive, disk) =
        (.ok (some record), pair) ∧ ¬ IsComplete archive halfway.project record pair.2 := by
    intro archive disk ends
    obtain ⟨answer, pair, ran, known⟩ := ends.exists_ok
    obtain ⟨record, rfl, missing⟩ := Option.map_eq_some_iff.mp known
    refine ⟨record, pair, ran, fun complete => ?_⟩
    obtain ⟨text, -, found⟩ := complete.text
    rw [found] at missing
    cases missing
  have appears : (offer (fun _ => pure ()) outward.capture 0.0).Ends (fun _ _ => False)
      (fun failure pair => isUnwritable failure = true ∧
        (pair.2.get? ["work", "snaps", nameOf 50]).isSome = true) (advanced, shelves) := by
    decide +kernel
  obtain ⟨failure, pair, ran, is, there⟩ := appears.exists_error
  obtain ⟨text, reason, rfl⟩ := eq_of_isUnwritable is
  refine ⟨⟨text, reason, pair, ran, fun undone => ?_⟩, lacks (by decide +kernel), lacks (by decide +kernel)⟩
  have same := undone.snapshots (nameOf 50) [] (isNumeral_nameOf (by decide))
  rw [show pair.2.get? ["work", "snaps", nameOf 50] = none from same.trans (by decide +kernel)] at there
  cases there

end Sample
end Whittle
