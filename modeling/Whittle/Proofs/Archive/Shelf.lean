import Whittle.Proofs.Archive.Tidy

/-!
What stands in the directory of an archive. A shelf has the snapshots that were kept, oldest first,
some of which may be gone by now but never the newest (`Archive.Shelf`). Staging a snapshot, whatever
comes of it, leaves a shelf as it was; publishing one adds to it; removing an old one takes nothing
else away. So what an archive is offered it keeps, and from a shelf it goes back to the newest
snapshot (`Archive.offer_ends`, `Archive.Shelf.exists_resume`).
-/

namespace Whittle

open List

variable {directory : Path} {folder : Place} {id : Int} {before disk after : Disk} {now : Float}
  {failure : Failure} {ids : List Int} {name : String}

/-- Where a run stands can be recorded: the tracked names lead down to places of their own, and all is
told in texts that can be written. -/
structure Progress.IsRecordable (progress : Progress) : Prop where
  proper : progress.project.files.IsProper
  inner : ∀ name, progress.project.tracks name = true → Path.IsInner name
  apart : ∀ name other, progress.project.tracks name = true → progress.project.tracks other = true →
    (Path.ofText name).names = (Path.ofText other).names → name = other
  plain : progress.IsPlain

namespace Archive

open Disk (Place IsPlain KeepsWays)

/-! ### Publishing -/

section Publish

variable {finish : Finish} {capture : Capture}

/-- What a published snapshot leaves: it stands under its name, nothing is left where it was staged,
and all else is as it was. -/
structure Published (directory : Path) (folder : Place) (id : Int) (before after : Disk) : Prop where
  tree : after.IsTree
  opens : after.Opens directory folder
  dir : after.get? (folder ++ [nameOf id]) = some .dir
  gone : after.get? (folder ++ [stagingName id]) = none
  passable : directory.Passable [stagingName id]
  elsewhere : ∀ place, ¬ folder ++ [stagingName id] <+: place → ¬ folder ++ [nameOf id] <+: place →
    after.get? place = before.get? place

/-- What is done to a staged snapshot stays in its directory, whatever comes of it. -/
structure Finish.StaysIn (finish : Finish) (directory : Path) (folder : Place) : Prop where
  distinct : ∀ path, (finish path).Keeps Disk.IsDistinct
  stays : ∀ id disk, disk.IsTree → disk.Opens directory folder →
    disk.get? (folder ++ [stagingName id]) = some .dir →
    (Margin.under (folder ++ [stagingName id])).Linkless disk →
    (finish (stagingPath directory id)).Keeps fun after =>
      after.IsTree ∧ (Margin.inside (folder ++ [stagingName id])).Alters disk after

theorem staysIn_pure : Finish.StaysIn (fun _ => pure ()) directory folder where
  distinct _ := keeps_pure _
  stays _ _ _ _ _ _ := keeps_pure _

theorem publish_keeps_distinct (kept : ∀ path, (finish path).Keeps Disk.IsDistinct)
    (capture : Capture) (id : Int) (now : Float) :
    (publish finish directory capture id now).Keeps Disk.IsDistinct :=
  (confined_publish Disk.isLasting_isDistinct.toLastsAt allows_true (fun path => (kept path).confined) id
    now).keeps

theorem Unpublished.clears (left : Unpublished directory folder id before disk)
    (opens : before.Opens directory folder)
    (clears : Clears (stagingPath directory id) failure disk after) :
    Unpublished directory folder id before after := by
  rcases clears with removed | ⟨rfl, -⟩
  · exact (left.removeTree opens removed).1
  · exact left

/-- What comes of publishing a snapshot. If it is not published, nothing has changed but where it was
staged. -/
theorem publish_ends (opens : disk.Opens directory folder) (tree : disk.IsTree)
    (inner : ∀ file ∈ orderedFiles capture.project, Path.IsInner file.1)
    (stays : finish.StaysIn directory folder) (id : Int) (now : Float) :
    (publish finish directory capture id now).Ends (fun _ => Published directory folder id disk)
      (fun _ => Unpublished directory folder id disk) disk := by
  refine publish_ends_of opens inner (fun record noted staged => ?_) (fun _ _ left => left) tree
  have opens := staged.opens opens
  have finished : ∀ after : Disk, after.IsTree ∧
      (Margin.inside (folder ++ [stagingName id])).Alters noted after →
      Unpublished directory folder id disk after := by
    rintro after ⟨tree, inside⟩
    refine ⟨tree, staged.alters.trans (inside.mono fun place is => ?_), fun _ => .inr staged.passable⟩
    exact Margin.under_of_inside (by rwa [append_nil])
  refine (stays.stays id noted staged.tree opens staged.dir staged.linkless noted
    ⟨staged.tree, .refl _ noted⟩).bind (fun _ ended so => ?_) fun _ => finished
  rw [ends_bind, Disk.ends_change]
  refine ⟨fun after moving => ?_, fun _ _ => finished ended so⟩
  have dir : ended.get? (folder ++ [stagingName id]) = some .dir := by
    rw [so.2.elsewhere _ (Bool.eq_false_iff.mpr (by simp)), staged.dir]
  have renamed := renamed_of_rename (opens.alters (so.2.mono fun _ => Margin.inside_of_inside)) so.1 dir
    moving
  refine ⟨renamed.tree, renamed.opens, (renamed.moved []).trans dir, renamed.gone, staged.passable, ?_⟩
  intro place apart apart'
  rw [renamed.elsewhere place apart apart']
  exact (finished ended so).alters.elsewhere place
    (Bool.eq_false_iff.mpr fun is => apart (Margin.under_iff.mp is))

end Publish

/-! ### Removing -/

/-- The directory of an archive from which the snapshots of some numbers were removed. -/
structure Removed (directory : Path) (folder : Place) (ids : List Int) (before after : Disk) : Prop where
  tree : after.IsTree
  distinct : after.IsDistinct
  opens : after.Opens directory folder
  shrinks : Disk.Shrinks before after
  gone : ∀ id ∈ ids, after.get? (folder ++ [nameOf id]) = none
  others : ∀ name, (∀ id ∈ ids, nameOf id ≠ name) → ∀ more,
    after.get? (folder ++ name :: more) = before.get? (folder ++ name :: more)

section Removed

theorem Removed.refl (opens : disk.Opens directory folder) (tree : disk.IsTree)
    (distinct : disk.IsDistinct) : Removed directory folder [] disk disk :=
  ⟨tree, distinct, opens, .refl disk, by simp, fun _ _ _ => rfl⟩

theorem Removed.stood {place : Place} (removed : Removed directory folder ids before after)
    (stands : after.get? place ≠ none) : before.get? place ≠ none := by
  obtain ⟨entry, found⟩ := Option.ne_none_iff_exists'.mp stands
  simp [removed.shrinks.had _ _ found]

theorem beside {other : String} (apart : name ≠ other) (more : List String) :
    ¬ folder ++ [name] <+: folder ++ other :: more := by
  rintro ⟨rest, whole⟩
  rw [append_assoc, append_cancel_left_eq] at whole
  exact apart (cons.inj whole).1

theorem Unpublished.get?_eq (left : Unpublished directory folder id before after)
    (apart : name ≠ stagingName id) (more : List String) :
    after.get? (folder ++ name :: more) = before.get? (folder ++ name :: more) := by
  refine left.alters.elsewhere _ (Bool.eq_false_iff.mpr fun is => ?_)
  exact beside apart.symm more (Margin.under_iff.mp is)

theorem Published.get?_eq (published : Published directory folder id before after)
    (apart : name ≠ stagingName id) (apart' : name ≠ nameOf id) (more : List String) :
    after.get? (folder ++ name :: more) = before.get? (folder ++ name :: more) :=
  published.elsewhere _ (beside apart.symm more) (beside apart'.symm more)

theorem Removed.removeTree (removed : Removed directory folder ids before disk)
    (ran : disk.removeTree (directory.child (nameOf id)) = .ok after) :
    Removed directory folder (ids ++ [id]) before after := by
  have tree := removed.tree.removeTree ran
  have distinct := removed.distinct.removeTree ran
  rw [snapshotPath_eq] at ran
  have opens := removed.opens
  obtain rfl := opens.removeTree_eq (plain_nameOf id) ran
  refine ⟨tree, distinct, ?_, ?_, fun other member => ?_, fun name apart more => ?_⟩
  · exact opens.alters ((Margin.alters_eraseTree disk _).mono fun _ => Margin.inside_of_under)
  · exact removed.shrinks.trans (Disk.shrinks_eraseTree disk _)
  · by_cases same : nameOf other = nameOf id
    · rw [same]
      exact Disk.get?_eraseTree_of_below (opens.outside _ (by simp)) (prefix_refl _)
    · rw [Disk.get?_eraseTree_of_not_below (beside (Ne.symm same) [])]
      refine removed.gone other ((mem_append.mp member).resolve_right fun new => same ?_)
      rw [mem_singleton.mp new]
  · rw [Disk.get?_eraseTree_of_not_below (beside (apart id (by simp)) more)]
    exact removed.others name (fun other member => apart other (mem_append_left _ member)) more

/-- Snapshots are removed one by one, until that fails; it does not fail as writing a snapshot does. -/
theorem removeSnapshots_ends {gone : List Int} (removed : Removed directory folder gone before disk) :
    (removeSnapshots directory ids).Ends (fun _ => Removed directory folder (gone ++ ids) before)
      (fun failure after => ∃ some, (∀ id ∈ some, id ∈ gone ++ ids) ∧
        Removed directory folder some before after ∧
        ∀ text reason, failure ≠ .archive (.unwritable text reason)) disk := by
  induction ids generalizing gone disk with
  | nil =>
    rw [append_nil]
    exact removed
  | cons id rest ih =>
    rw [removeSnapshots, ends_bind, ends_attempt, Disk.ends_change]
    constructor
    · intro after done
      rw [append_cons]
      exact ih (removed.removeTree done)
    · intro fault _
      have among : ∀ other ∈ gone, other ∈ gone ++ id :: rest := fun _ => mem_append_left _
      dsimp only
      split
      · exact ⟨gone, among, removed, fun _ _ same => by cases same⟩
      · exact ⟨gone, among, removed, fun _ _ same => by cases same⟩

end Removed

/-! ### Shelves -/

section Shelf

variable {archive : Archive} {kept : List (Int × Progress)} {entry : Int × Progress}
  {progress : Progress}

/-- A snapshot of where a run stood is stored under its number. -/
def Shelves (disk : Disk) (directory : Path) (folder : Place) (entry : Int × Progress) : Prop :=
  ∃ now record text, recordOf entry.2.capture entry.1 now = .ok record ∧
    (record.toValue >>= Value.Json.writeSpread) = .ok text ∧
    Stored disk directory folder (nameOf entry.1) text (orderedFiles entry.2.project)

/-- The directory of an archive in which snapshots were kept, oldest first. Those that are still there
are whole, and the newest is. What else stands there was staged, or is a log. -/
structure Shelf (directory : Path) (folder : Place) (kept : List (Int × Progress)) (disk : Disk) :
    Prop where
  opens : kept ≠ [] → disk.Opens directory folder ∧ directory.Passable []
  order : kept.Pairwise fun first second => first.1 < second.1
  natural : ∀ entry ∈ kept, 0 < entry.1
  passable : ∀ entry ∈ kept, directory.Passable [stagingName entry.1]
  recordable : ∀ entry ∈ kept, entry.2.IsRecordable
  named : ∀ name, disk.get? (folder ++ [name]) ≠ none → (∃ entry ∈ kept, name = nameOf entry.1) ∨
    (∃ id, name = stagingName id ∧ directory.Passable [name]) ∨ name = logName
  stored : ∀ entry ∈ kept, disk.get? (folder ++ [nameOf entry.1]) ≠ none →
    disk.get? (folder ++ [nameOf entry.1]) = some .dir ∧ Shelves disk directory folder entry
  newest : ∀ entry, kept.getLast? = some entry → disk.get? (folder ++ [nameOf entry.1]) ≠ none

theorem nameOf_ne_logName (id : Int) : nameOf id ≠ logName := by
  intro same
  have letter : 'e' ∈ (nameOf id).toList := by
    rw [same]
    decide
  exact notMem_nameOf id (by decide) (by decide) letter

theorem Stored.congr {text : String} {files : List (String × Bytes)}
    (stored : Stored before directory folder name text files)
    (same : ∀ more, after.get? (folder ++ name :: more) = before.get? (folder ++ name :: more)) :
    Stored after directory folder name text files :=
  { stored with
    record := (same _).trans stored.record
    copies := fun file member => (same _).trans (stored.copies file member) }

namespace Shelf

theorem empty (free : ∀ name, disk.get? (folder ++ [name]) = none) :
    Shelf directory folder [] disk where
  opens nonnil := absurd rfl nonnil
  order := .nil
  natural _ member := by cases member
  passable _ member := by cases member
  recordable _ member := by cases member
  named name stands := absurd (free name) stands
  stored _ member := by cases member
  newest _ same := by cases same

section

variable (shelf : Shelf directory folder kept before)

include shelf

/-- A shelf stays as it is while its snapshots do, and nothing else comes to stand there. -/
theorem of_same (opens : before.Opens directory folder → after.Opens directory folder)
    (same : ∀ entry ∈ kept, ∀ more,
      after.get? (folder ++ nameOf entry.1 :: more) = before.get? (folder ++ nameOf entry.1 :: more))
    (others : ∀ name, after.get? (folder ++ [name]) ≠ none → before.get? (folder ++ [name]) ≠ none ∨
      (∃ id, name = stagingName id ∧ directory.Passable [name]) ∨ name = logName) :
    Shelf directory folder kept after :=
  { shelf with
    opens := fun some => ⟨opens (shelf.opens some).1, (shelf.opens some).2⟩
    named := fun name stands => (others name stands).elim (shelf.named name) .inr
    stored := by
      intro entry member stands
      rw [same entry member] at stands ⊢
      obtain ⟨dir, now, record, text, recorded, told, stored⟩ := shelf.stored entry member stands
      exact ⟨dir, now, record, text, recorded, told, stored.congr (same entry member)⟩
    newest := by
      intro entry last
      rw [same entry (mem_of_getLast? last)]
      exact shelf.newest entry last }

/-- A shelf stays as it is while ways are kept and nothing changes in it but a log. -/
theorem mono (keeps : KeepsWays before after) (same : ∀ name more, name ≠ logName →
      after.get? (folder ++ name :: more) = before.get? (folder ++ name :: more)) :
    Shelf directory folder kept after := by
  refine shelf.of_same (fun opens => opens.mono (keeps.without _))
    (fun entry _ more => same _ more (nameOf_ne_logName entry.1)) fun name stands => ?_
  by_cases log : name = logName
  · exact .inr (.inr log)
  · exact .inl (same name [] log ▸ stands)

theorem unpublished
    (left : Unpublished directory folder id before after) : Shelf directory folder kept after := by
  refine shelf.of_same left.opens (fun entry _ => left.get?_eq (stagingName_ne id entry.1).symm)
    fun name stands => ?_
  by_cases here : name = stagingName id
  · rw [here] at stands ⊢
    exact (left.asked stands).imp_right fun passable => .inl ⟨id, rfl, passable⟩
  · exact .inl (left.get?_eq here [] ▸ stands)

/-- Publishing a snapshot of a new number adds it to a shelf. -/
theorem published
    (published : Published directory folder id before after) (passable : directory.Passable [])
    (positive : 0 < id) (later : ∀ entry ∈ kept, entry.1 < id) (recordable : progress.IsRecordable)
    (shelves : Shelves after directory folder (id, progress)) :
    Shelf directory folder (kept ++ [(id, progress)]) after := by
  have old : ∀ entry ∈ kept, ∀ more, after.get? (folder ++ nameOf entry.1 :: more) =
      before.get? (folder ++ nameOf entry.1 :: more) := by
    refine fun entry member => published.get?_eq (stagingName_ne id entry.1).symm fun same => ?_
    have := later entry member
    have := nameOf_inj (Int.le_of_lt (shelf.natural entry member)) (Int.le_of_lt positive) same
    omega
  have all : ∀ {property : Int × Progress → Prop}, (∀ entry ∈ kept, property entry) →
      property (id, progress) → ∀ entry ∈ kept ++ [(id, progress)], property entry := by
    intro property before now entry member
    rcases mem_append.mp member with old | new
    · exact before entry old
    · rw [mem_singleton.mp new]
      exact now
  constructor
  · exact fun _ => ⟨published.opens, passable⟩
  · refine pairwise_append.mpr ⟨shelf.order, pairwise_singleton _ _, ?_⟩
    intro entry member _ new
    rw [mem_singleton.mp new]
    exact later entry member
  · exact all shelf.natural positive
  · exact all shelf.passable published.passable
  · exact all shelf.recordable recordable
  · intro name stands
    by_cases new : name = nameOf id
    · exact .inl ⟨(id, progress), by simp, new⟩
    · have other : name ≠ stagingName id := by
        rintro rfl
        exact stands published.gone
      rw [published.get?_eq other new] at stands
      refine (shelf.named name stands).imp_left ?_
      rintro ⟨entry, member, same⟩
      exact ⟨entry, mem_append_left _ member, same⟩
  · refine all (fun entry member stands => ?_) fun _ => ⟨published.dir, shelves⟩
    rw [old entry member] at stands ⊢
    obtain ⟨dir, now, record, text, recorded, told, stored⟩ := shelf.stored entry member stands
    exact ⟨dir, now, record, text, recorded, told, stored.congr (old entry member)⟩
  · intro entry last
    rw [getLast?_concat, Option.some.injEq] at last
    rw [← last, published.dir]
    simp

/-- Snapshots that are not the newest can be taken away. -/
theorem removed (removed : Removed directory folder ids before after) (natural : ∀ id ∈ ids, 0 ≤ id)
    (older : ∀ entry, kept.getLast? = some entry → ∀ id ∈ ids, id < entry.1) :
    Shelf directory folder kept after := by
  refine { shelf with
    opens := fun some => ⟨removed.opens, (shelf.opens some).2⟩
    named := fun name stands => shelf.named name (removed.stood stands)
    stored := fun entry member stands => ?_
    newest := fun entry last => ?_ }
  · have same := removed.others (nameOf entry.1) fun id gone is => stands (is ▸ removed.gone id gone)
    obtain ⟨dir, now, record, text, recorded, told, stored⟩ :=
      shelf.stored entry member (removed.stood stands)
    exact ⟨(same []).trans dir, now, record, text, recorded, told, stored.congr same⟩
  · have same := removed.others (nameOf entry.1) (fun id gone is => ?_) []
    · rw [same]
      exact shelf.newest entry last
    · have positive := shelf.natural entry (mem_of_getLast? last)
      have := older entry last id gone
      have := nameOf_inj (natural id gone) (Int.le_of_lt positive) is
      omega

end

section

variable (shelf : Shelf directory folder kept disk)

include shelf

theorem shelved (nonnil : kept ≠ []) (stands : disk.get? (folder ++ [name]) ≠ none) :
    IsShelved name ∧ directory.Passable [name] := by
  rcases shelf.named name stands with ⟨entry, member, rfl⟩ | ⟨id, rfl, passable⟩ | rfl
  · refine ⟨.snapshot entry.1 rfl, ?_⟩
    exact (shelf.passable entry member).exchange (isSimple_stagingName _) (isSimple_nameOf _)
      (length_nameOf_le _)
  · exact ⟨.staged id rfl, passable⟩
  · obtain ⟨entry, member⟩ := exists_mem_of_ne_nil kept nonnil
    refine ⟨.log rfl, (shelf.passable entry member).exchange (isSimple_stagingName _) ?_ ?_⟩
    · exact ⟨by simp [logName], by decide, by decide⟩
    · have length := length_nameOf (Int.le_of_lt (shelf.natural entry member))
      rw [stagingName, String.length_append, String.length_append]
      exact Nat.le_trans (show logName.length ≤ 1 + 6 + 8 by decide)
        (Nat.add_le_add_right (Nat.add_le_add_left length 1) 8)

theorem le_newest {other : Int × Progress}
    (last : kept.getLast? = some entry) (member : other ∈ kept) : other.1 ≤ entry.1 := by
  obtain ⟨older, rfl⟩ := getLast?_eq_some_iff.mp last
  rcases mem_append.mp member with old | new
  · exact Int.le_of_lt ((pairwise_append.mp shelf.order).2.2 other old entry (by simp))
  · exact Int.le_of_eq (congrArg Prod.fst (mem_singleton.mp new))

/-- What stands on a shelf under the name of a snapshot is a snapshot that was kept. -/
theorem exists_entry (stands : Stands folder disk id) :
    ∃ entry ∈ kept, entry.1 = id := by
  rcases shelf.named (nameOf id) (by simp [stands.2]) with ⟨entry, member, same⟩ | ⟨other, same, -⟩ | same
  · refine ⟨entry, member, nameOf_inj ?_ stands.1 same.symm⟩
    exact Int.le_of_lt (shelf.natural entry member)
  · exact absurd same.symm (stagingName_ne other id)
  · exact absurd same (nameOf_ne_logName id)

end

section Numbers

variable (shelf : Shelf archive.directory folder kept disk) (last : kept.getLast? = some entry)
  (tree : disk.IsTree) (distinct : disk.IsDistinct)
  (linkless : (Margin.inside folder).Linkless disk)

include shelf last tree distinct linkless

theorem exists_lists : ∃ ids, archive.ids disk = .ok ids ∧ Lists folder disk ids := by
  have member := mem_of_getLast? last
  have some := ne_nil_of_mem member
  obtain ⟨opens, passable⟩ := shelf.opens some
  have noLink : ∀ name target, disk.get? (folder ++ [name]) ≠ .some (.link target) :=
    fun name target => linkless.get?_ne (Margin.inside_iff.mpr ⟨[name], by simp, rfl⟩) target
  have tidy : Tidy archive.directory folder disk := by
    refine ⟨tree, distinct, .opened opens, fun name target _ => noLink name target,
      fun name numeral dir => ?_⟩
    rcases shelf.named name (by simp [dir]) with ⟨entry, member, same⟩ | ⟨id, rfl, -⟩ | rfl
    · exact ⟨entry.1, Int.le_of_lt (shelf.natural entry member), same⟩
    · exact absurd rfl (numeral.ne_stagingName id)
    · exact absurd (numeral.digits 'e' (by decide)) (by decide)
  have unbarred : ¬ archive.IsBarred disk := by
    rintro ⟨names, name, fault, list, listed, fails⟩
    cases (opens.list_eq tree passable).symm.trans list
    rw [Disk.mem_namesIn_iff_get? (opens.outside _ (by simp))] at listed
    obtain ⟨shelved, passable⟩ := shelf.shelved some listed
    rw [shelved.child_eq, opens.isDir_name shelved.plain passable (noLink name)] at fails
    cases fails
  obtain ⟨ids, found⟩ := tidy.exists_ids opens passable unbarred
  exact ⟨ids, found,
    tidy.lists_ids opens passable (usable_nameOf (shelf.passable entry member)) found⟩

/-- The numbers that an archive finds on its shelf: that of the newest snapshot comes last. -/
theorem exists_ids : ∃ older, archive.ids disk = .ok (older ++ [entry.1]) ∧
    Lists folder disk (older ++ [entry.1]) := by
  have member := mem_of_getLast? last
  obtain ⟨ids, found, lists⟩ := shelf.exists_lists last tree distinct linkless
  have newest : entry.1 ∈ ids := (lists.members entry.1).mpr
    ⟨Int.le_of_lt (shelf.natural entry member), (shelf.stored entry member (shelf.newest entry last)).1⟩
  rcases eq_nil_or_concat ids with rfl | ⟨older, latest, rfl⟩
  · cases newest
  · rw [concat_eq_append] at *
    obtain ⟨-, -, below⟩ := pairwise_append.mp lists.order
    have same : latest = entry.1 := by
      rcases mem_append.mp newest with old | new
      · obtain ⟨other, kept, rfl⟩ := shelf.exists_entry ((lists.members latest).mp (by simp))
        have := below entry.1 old other.1 (by simp)
        have := shelf.le_newest last kept
        omega
      · exact (mem_singleton.mp new).symm
    exact ⟨older, same ▸ found, same ▸ lists⟩

end Numbers

section

variable (shelf : Shelf archive.directory folder kept disk)

include shelf

theorem load (tree : disk.IsTree)
    (member : entry ∈ kept) (shelves : Shelves disk archive.directory folder entry) :
    ∃ point, archive.load disk entry.1 = .ok point ∧ point.Restores entry.1 entry.2 := by
  obtain ⟨now, record, text, recorded, told, stored⟩ := shelves
  have recordable := shelf.recordable entry member
  exact load_of_stored (shelf.opens (ne_nil_of_mem member)).1 tree recordable.proper
    recordable.inner recordable.plain recorded told stored

section

variable (last : kept.getLast? = some entry) (tree : disk.IsTree) (distinct : disk.IsDistinct)
  (linkless : (Margin.inside folder).Linkless disk)

include last tree distinct linkless

/-- The snapshots that an archive finds on its shelf are loaded as they were taken, and the newest is
among them. -/
theorem exists_loads :
    ∃ ids, archive.ids disk = .ok ids ∧ entry.1 ∈ ids ∧ ∀ id ∈ ids, ∃ other ∈ kept,
      other.1 = id ∧ ∃ point, archive.load disk id = .ok point ∧ point.Restores id other.2 := by
  obtain ⟨older, found, lists⟩ := shelf.exists_ids last tree distinct linkless
  refine ⟨_, found, by simp, fun id listed => ?_⟩
  have stands := (lists.members id).mp listed
  obtain ⟨other, kept, rfl⟩ := shelf.exists_entry stands
  exact ⟨other, kept, rfl, shelf.load tree kept (shelf.stored other kept (by simp [stands.2])).2⟩

/-- From a shelf an archive goes back to the newest snapshot. -/
theorem exists_resume :
    ∃ point later, archive.resume disk = .ok (point, later) ∧ point.Restores entry.1 entry.2 := by
  have member := mem_of_getLast? last
  obtain ⟨older, found, -⟩ := shelf.exists_ids last tree distinct linkless
  obtain ⟨point, loaded, restores⟩ := shelf.load tree member
    (shelf.stored entry member (shelf.newest entry last)).2
  refine ⟨point, { archive with lastId := (older ++ [entry.1]).foldl max archive.lastId }, ?_,
    restores⟩
  rw [resume, found]
  dsimp only
  rw [reverse_append, reverse_singleton, singleton_append, loadFirst, loaded]
  rfl

end

end

end Shelf

/-! ### Keeping snapshots -/

/-- An archive with a stock of snapshots: they are on its shelf, to which its path leads, and it has
counted them. -/
structure Stocked (margin : Margin) (folder : Place) (kept : List (Int × Progress))
    (archive : Archive) (disk : Disk) : Prop where
  shelf : Shelf archive.directory folder kept disk
  tree : disk.IsTree
  distinct : disk.IsDistinct
  linkless : margin.Linkless disk
  reaches : margin.Reaches disk archive.directory folder
  outside : ∀ more, more ≠ [] → ¬ disk.IsFixed (folder ++ more)
  counted : ∀ entry ∈ kept, entry.1 ≤ archive.lastId
  natural : 0 ≤ archive.lastId
  ample : archive.retention.lt (.int 1) = false

variable {margin : Margin}

theorem surplus_le {retention : Decimal.Number} {count many : Nat}
    (ample : retention.lt (.int 1) = false) (found : surplus retention (count + 1) = .ok many) :
    many ≤ count := by
  unfold surplus at found
  split at found
  · next kept =>
    have enough : 1 ≤ kept := by simpa [Decimal.Number.lt] using ample
    cases found
    omega
  · split at found
    · cases found
    · cases found
      exact Nat.zero_le _

namespace Stocked

theorem linkless_inside (stocked : Stocked margin folder kept archive disk) :
    (Margin.inside folder).Linkless disk := by
  refine stocked.linkless.mono fun place is => ?_
  obtain ⟨more, -, rfl⟩ := Margin.inside_iff.mp is
  exact margin.below folder more stocked.reaches.has

theorem restock {kept' : List (Int × Progress)} (stocked : Stocked margin folder kept archive before)
    (ways : KeepsWays (before.without margin) (after.without margin))
    (shelf : Shelf archive.directory folder kept' after)
    (counted : ∀ entry ∈ kept', entry.1 ≤ archive.lastId) (tree : after.IsTree)
    (distinct : after.IsDistinct) (linkless : margin.Linkless after) :
    Stocked margin folder kept' archive after :=
  { stocked with
    shelf
    tree
    distinct
    linkless
    counted
    reaches := stocked.reaches.mono ways
    outside := by
      intro more deeper fixed
      refine stocked.outside more deeper ?_
      have home : after.home = before.home := ways.home
      rw [Disk.IsFixed, ← home]
      exact fixed }

section

variable (stocked : Stocked margin folder kept archive disk)

include stocked

theorem makeDirs : Stocked margin folder kept archive (disk.makeDirs true archive.directory).2 := by
  have tends := Margin.tends_makeDirs stocked.reaches.holds stocked.linkless true
  have grows := disk.grows_makeDirs true archive.directory
  refine stocked.restock tends.alters.keepsWays (stocked.shelf.mono grows.keepsWays ?_)
    stocked.counted (stocked.tree.makeDirs _ _) (stocked.distinct.makeDirs _ _) tends.linkless
  intro name more _
  refine stocked.reaches.get?_makeDirs stocked.linkless true fun under => ?_
  have long := under.length_le
  rw [length_append, length_cons] at long
  omega

theorem published {record : Record}
    (opens : disk.Opens archive.directory folder) (passable : archive.directory.Passable [])
    (last : archive.lastId = record.id) (later : ∀ entry ∈ kept, entry.1 < record.id)
    (positive : 0 < record.id) (recordable : progress.IsRecordable)
    (ran : (publish (fun _ => pure ()) archive.directory progress.capture record.id now).runOn disk =
      (.ok record, after)) :
    Stocked margin folder (kept ++ [(record.id, progress)]) archive after := by
  have inner : ∀ file ∈ orderedFiles progress.capture.project, Path.IsInner file.1 :=
    inner_of_tracked recordable.inner
  have tends : margin.Tends disk after :=
    (publish_keeps stocked.reaches.holds inner record.id now).of_runOn (.refl stocked.linkless) ran
  have distinct : after.IsDistinct :=
    (publish_keeps_distinct (fun _ => keeps_pure _) _ _ _).of_runOn stocked.distinct ran
  have published := (ends_ok ran).mp
    (publish_ends opens stocked.tree inner staysIn_pure record.id now)
  obtain ⟨text, recorded, told, -, -, stored⟩ := stored_of_publish opens stocked.tree inner
    (nodup_orderedFiles recordable.proper recordable.apart) spares_pure ran
  have shelf := stocked.shelf.published published passable positive later recordable
    ⟨now, record, text, recorded, told, stored⟩
  refine stocked.restock tends.alters.keepsWays shelf (fun entry member => ?_) published.tree distinct
    tends.linkless
  rcases mem_append.mp member with old | new
  · exact stocked.counted entry old
  · exact Int.le_of_eq ((congrArg Prod.fst (mem_singleton.mp new)).trans last.symm)

/-- A snapshot that is not published leaves the stock as it is, and so does clearing it away. -/
theorem unpublished {left : Disk}
    (opens : disk.Opens archive.directory folder) (recordable : progress.IsRecordable)
    (ran : (publish (fun _ => pure ()) archive.directory progress.capture id now).runOn disk =
      (.error failure, left))
    (clears : Clears (stagingPath archive.directory id) failure left after) :
    Stocked margin folder kept archive after := by
  have inner : ∀ file ∈ orderedFiles progress.capture.project, Path.IsInner file.1 :=
    inner_of_tracked recordable.inner
  have holds := stocked.reaches.holds.child (staging_inner id)
  have tends := (ends_error ran).mp
    (publish_keeps stocked.reaches.holds inner id now disk (.refl stocked.linkless))
  have distinct := (ends_error ran).mp
    (publish_keeps_distinct (fun _ => keeps_pure _) _ _ _ disk stocked.distinct)
  have unpublished := ((ends_error ran).mp
    (publish_ends opens stocked.tree inner staysIn_pure id now)).clears opens clears
  have shelf := stocked.shelf.unpublished unpublished
  rcases clears with removed | ⟨rfl, -⟩
  · have tends := Margin.lastsAt.removeTree holds tends removed
    exact stocked.restock tends.alters.keepsWays shelf stocked.counted unpublished.tree
      (distinct.removeTree removed) tends.linkless
  · exact stocked.restock tends.alters.keepsWays shelf stocked.counted unpublished.tree distinct
      tends.linkless

theorem removeSnapshots_ends
    (last : kept.getLast? = some entry) (older : ∀ id ∈ ids, 0 ≤ id ∧ id < entry.1) :
    (removeSnapshots archive.directory ids).Leaves (Stocked margin folder kept archive) disk := by
  have opens := (stocked.shelf.opens (ne_nil_of_mem (mem_of_getLast? last))).1
  have restocked : ∀ gone after, (∀ id ∈ gone, id ∈ ids) →
      Removed archive.directory folder gone disk after → margin.Tends disk after →
      Stocked margin folder kept archive after := by
    intro gone after among removed tends
    refine stocked.restock tends.alters.keepsWays ?_ stocked.counted removed.tree removed.distinct
      tends.linkless
    refine stocked.shelf.removed removed (fun id member => (older id (among id member)).1) ?_
    intro other newest id member
    cases last.symm.trans newest
    exact (older id (among id member)).2
  refine ((Archive.removeSnapshots_ends (.refl opens stocked.tree stocked.distinct)).and
    (removeSnapshots_keeps stocked.reaches.holds ids disk (.refl stocked.linkless))).imp ?_ ?_
  · exact fun _ after ended => restocked ids after (fun _ => id) ended.1 ended.2
  · rintro _ after ⟨⟨gone, among, removed, -⟩, tends⟩
    exact restocked gone after among removed tends

/-- Removing the snapshots that are too many leaves the stock as it is. -/
theorem evict_ends (last : kept.getLast? = some entry) :
    evict.Leaves (fun pair => pair.1 = archive ∧ Stocked margin folder kept archive pair.2)
      (archive, disk) := by
  obtain ⟨older, found, lists⟩ := stocked.shelf.exists_ids last stocked.tree stocked.distinct
    stocked.linkless_inside
  obtain ⟨-, -, below⟩ := pairwise_append.mp lists.order
  rw [Step.Leaves, evict, ends_get_bind]
  dsimp only
  rw [found, ends_bind, ends_lift_ok, ends_bind, ends_lift]
  refine ⟨fun count counts => ?_, fun _ _ => ⟨rfl, stocked⟩⟩
  rw [length_append, length_singleton] at counts
  have few := surplus_le stocked.ample counts
  rw [take_append_of_le_length few, onDisk, ends_within]
  refine (stocked.removeSnapshots_ends last fun id member => ?_).mono
    fun _ so => ⟨rfl, so⟩
  have old := mem_of_mem_take member
  exact ⟨((lists.members id).mp (mem_append_left _ old)).1, below id old _ (by simp)⟩

/-- Giving a snapshot a number leaves the stock as it is. -/
theorem begins {made : Disk} (begins : archive.Begins disk id made) :
    Stocked margin folder kept { archive with lastId := id } made ∧
      made.Opens archive.directory folder ∧ archive.directory.Passable [] ∧
      ∀ entry ∈ kept, entry.1 < id := by
  have stocked' := stocked.makeDirs
  rw [begins.making] at stocked'
  have opens := stocked.reaches.opens_of_makeDirs stocked.linkless stocked.tree
    stocked.outside begins.making
  have later := begins.later
  have latest : ∀ entry ∈ kept, entry.1 < id := by
    intro entry member
    have := stocked.counted entry member
    omega
  refine ⟨{ stocked' with
    counted := fun entry member => Int.le_of_lt (latest entry member)
    natural := ?_ }, opens, Disk.passable_of_makeDirs begins.making, latest⟩
  have := stocked.natural
  change 0 ≤ id
  omega

theorem write_ends (recordable : progress.IsRecordable) :
    (write (fun _ => pure ()) progress.capture now).Ends
      (fun record pair => pair.1.written = archive.written ∧
        Stocked margin folder (kept ++ [(record.id, progress)]) pair.1 pair.2)
      (fun _ pair => pair.1.written = archive.written ∧ Stocked margin folder kept pair.1 pair.2)
      (archive, disk) := by
  refine (write_parts _ progress.capture now archive disk).imp ?_ ?_
  · rintro record ⟨_, after⟩ ⟨made, begins, rfl, ran⟩
    obtain ⟨stocked', opens, passable, latest⟩ := stocked.begins begins
    have positive : 0 < record.id := Int.lt_of_le_of_lt stocked.natural begins.later
    exact ⟨rfl, stocked'.published opens passable rfl latest positive recordable ran⟩
  · rintro failure ⟨_, after⟩ (same | ⟨id, made, cause, left, begins, rfl, -, ran, clears⟩)
    · cases same
      exact ⟨rfl, stocked.makeDirs⟩
    · obtain ⟨stocked', opens, -⟩ := stocked.begins begins
      exact ⟨rfl, stocked'.unpublished opens recordable ran clears⟩

end

end Stocked

/-- What comes of offering a snapshot to an archive: the archive keeps it, or what it had. -/
def Offered (margin : Margin) (folder : Place) (kept : List (Int × Progress)) (progress : Progress)
    (archive : Archive) (disk : Disk) : Prop :=
  ∃ kept', (kept' = kept ∨ ∃ id, kept' = kept ++ [(id, progress)]) ∧
    archive.written = kept'.map Prod.fst ∧ Stocked margin folder kept' archive disk

/-- An archive keeps what it is offered, unless it is too soon or that fails, and does not lose the
newest snapshot that it had. -/
theorem offer_ends (stocked : Stocked margin folder kept archive disk)
    (written : archive.written = kept.map Prod.fst) (recordable : progress.IsRecordable) :
    (offer (fun _ => pure ()) progress.capture now).Leaves
      (fun pair => Offered margin folder kept progress pair.1 pair.2) (archive, disk) := by
  have stays : Offered margin folder kept progress archive disk := ⟨kept, .inl rfl, written, stocked⟩
  rw [Step.Leaves, offer, ends_get_bind, ends_bind, ends_lift]
  refine ⟨fun soon _ => ?_, fun _ _ => stays⟩
  rw [ends_ite]
  refine ⟨fun _ => stays, fun _ => ?_⟩
  refine (stocked.write_ends recordable).bind ?_ ?_
  · rintro record ⟨later, after⟩ ⟨same, stocked⟩
    rw [ends_bind, note, ends_modify]
    have noted : Stocked margin folder (kept ++ [(record.id, progress)])
        { later with lastWritten := some now, written := later.written ++ [record.id] } after :=
      { stocked with }
    have kept' : ∀ pair : Archive × Disk, pair.1 = { later with
          lastWritten := some now, written := later.written ++ [record.id] } ∧
        Stocked margin folder (kept ++ [(record.id, progress)]) { later with
          lastWritten := some now, written := later.written ++ [record.id] } pair.2 →
        Offered margin folder kept progress pair.1 pair.2 := by
      rintro ⟨_, disk⟩ ⟨rfl, stocked⟩
      refine ⟨_, .inr ⟨record.id, rfl⟩, ?_, stocked⟩
      rw [map_append, ← written, ← same]
      rfl
    refine (noted.evict_ends (getLast?_concat ..)).bind ?_ fun _ => kept'
    exact fun _ => kept'
  · rintro _ ⟨later, after⟩ ⟨same, stocked⟩
    exact ⟨kept, .inl rfl, same.trans written, stocked⟩

end Shelf
end Archive
end Whittle
