import Whittle.Proofs.Archive.Numbers

/-!
The newest intact snapshot. A snapshot is intact or damaged in some way (`Archive.IsIntact`,
`Archive.IsDamaged`), and most damage is passed over on the way to an older one. What an archive goes on
from is the intact snapshot of the highest number exactly if all entries of its directory can be asked
about and read, and all damage met before is of that kind (`Archive.resume_isNewest_iff`).
-/

namespace Whittle

open List

variable {disk : Disk} {path : Path} {names : List String} {record : Record}
  {file : String × String} {copies : List (String × Bytes)} {point : Checkpoint} {failure : Failure}
  {damage : Damage}

/-! ### Directories that can be listed -/

namespace Disk

variable {fault : Fault}

theorem isSystem_of_status (fails : disk.status path = .error fault) : fault.isSystem = true := by
  rw [status] at fails
  split at fails
  · cases fails
  · split at fails
    · cases fails
    · split at fails
      · cases fails
      · cases fails
        rfl

theorem isSystem_of_isDir (fails : disk.isDir path = .error fault) : fault.isSystem = true := by
  rw [isDir] at fails
  cases found : disk.status path with
  | error =>
    rw [found] at fails
    cases fails
    exact isSystem_of_status found
  | ok =>
    rw [found] at fails
    cases fails

section

variable (listed : disk.list path = .ok names)

include listed

theorem of_list :
    unusable? path.text = none ∧ ∃ place, disk.lookUp .target path = .ok place ∧
      disk.get? place = some .dir ∧ names = disk.namesIn place := by
  obtain ⟨place, located, listed⟩ := bind_eq_ok_iff.mp listed
  obtain ⟨usable, leads⟩ := atPath_eq_ok_iff.mp located
  split at listed
  · cases listed
  · next dir =>
    cases listed
    exact ⟨usable, place, leads, dir, rfl⟩
  · cases listed

/-- A directory can be listed only if something stands there. -/
theorem pathExists_of_list :
    disk.pathExists path = .ok true := by
  obtain ⟨usable, place, leads, dir, -⟩ := of_list listed
  rw [pathExists, status, usable, leads]
  simp [Except.map, dir]

theorem isDir_of_list : disk.isDir path = .ok true := by
  obtain ⟨usable, place, leads, dir, -⟩ := of_list listed
  rw [isDir, status, usable, leads]
  simp [Except.map, dir]

end

theorem nodup_of_list (distinct : disk.IsDistinct)
    (listed : disk.list path = .ok names) : names.Nodup := by
  obtain ⟨-, place, -, -, rfl⟩ := of_list listed
  exact nodup_namesIn distinct place

/-- Where something stands that cannot be listed, the operating system says so. -/
theorem isSystem_of_list (stands : disk.pathExists path = .ok true)
    (fails : disk.list path = .error fault) : fault.isSystem = true := by
  rw [pathExists, status] at stands
  split at stands
  · cases stands
  · next usable =>
    have usable : unusable? path.text = none := by simpa using usable
    split at stands
    · next place looked =>
      have located : disk.locate path = .ok place := by
        rw [locate, looked]
        exact atPath_ok usable
      simp only [list, located, bind, Except.bind] at fails
      split at fails
      · cases fails
        rfl
      · cases fails
      · cases fails
        rfl
    · next code _ =>
      by_cases absent : code.meansAbsent = true <;> simp [absent, Except.map] at stands

end Disk

namespace Archive

variable {archive : Archive} {name : String} {id : Int} {ids : List Int}

/-! ### Snapshots in a directory -/

/-- A directory in the directory of an archive has digits for its name. -/
structure IsCounted (archive : Archive) (disk : Disk) (name : String) : Prop where
  listed : ∃ names, disk.list archive.directory = .ok names ∧ name ∈ names
  dir : disk.isDir (archive.directory.child name) = .ok true
  ne_empty : name ≠ ""
  digits : ∀ char ∈ name.toList, Text.isDigit char = true

def Has (archive : Archive) (disk : Disk) (id : Int) : Prop :=
  ∃ name, archive.IsCounted disk name ∧ (Value.text name).toInteger = .ok id

/-- In the directory of an archive there is an entry that cannot be asked about. -/
def IsBarred (archive : Archive) (disk : Disk) : Prop :=
  ∃ names name fault, disk.list archive.directory = .ok names ∧ name ∈ names ∧
    disk.isDir (archive.directory.child name) = .error fault

/-- No two names in the directory of an archive are read as a number. -/
def IsUnambiguous (archive : Archive) (disk : Disk) (id : Int) : Prop :=
  ∀ name other, archive.IsCounted disk name → archive.IsCounted disk other →
    (Value.text name).toInteger = .ok id → (Value.text other).toInteger = .ok id → name = other

/-- What is found in the directory of an archive: that it cannot be read, that a name in it is no
number, or the numbers of its snapshots. -/
inductive Search (archive : Archive) (disk : Disk) : Except Failure (List Int) → Prop where
  | unread (fault : Disk.Fault) : fault.isSystem = true →
    (archive.IsBarred disk ∨ ∀ names, disk.list archive.directory ≠ .ok names) →
    Search archive disk (.error (.disk fault))
  | misread (name : String) (fault : Value.Fault) : ¬ archive.IsBarred disk →
    archive.IsCounted disk name → (Value.text name).toInteger = .error fault →
    Search archive disk (.error (.value fault))
  | found (ids : List Int) : ¬ archive.IsBarred disk →
    (∀ name, archive.IsCounted disk name → ∃ id, (Value.text name).toInteger = .ok id) →
    ids.Pairwise (· ≤ ·) → (∀ id, id ∈ ids ↔ archive.Has disk id) →
    (disk.IsDistinct → ∀ id, archive.IsUnambiguous disk id → ids.count id ≤ 1) →
    Search archive disk (.ok ids)

theorem not_isCounted (unlisted : ∀ names, disk.list archive.directory ≠ .ok names) (name : String) :
    ¬ archive.IsCounted disk name :=
  fun counted =>
    have ⟨names, listed, _⟩ := counted.listed
    unlisted names listed

theorem pairwise_sortBy_le (numbers : List Int) :
    (sortBy (fun left right => left < right) numbers).Pairwise (· ≤ ·) := by
  apply pairwise_sortBy
  · exact fun _ _ _ => Int.le_trans
  · exact fun _ _ is => Int.le_of_lt (of_decide_eq_true is)
  · exact fun _ _ not => Int.not_lt.mp (of_decide_eq_false not)

theorem search_numbersIn (listed : disk.list archive.directory = .ok names) :
    archive.Search disk (numbersIn disk archive.directory names) := by
  have isCounted_iff : ∀ name, archive.IsCounted disk name ↔ name ∈ names ∧
      (do return (← (disk.isDir (archive.directory.child name)).mapError Failure.disk) &&
        !name.isEmpty && name.toList.all Text.isDigit : Except Failure Bool) = .ok true := by
    intro name
    constructor
    · rintro ⟨⟨_, listed', member⟩, dir, some, digits⟩
      cases listed.symm.trans listed'
      refine ⟨member, ?_⟩
      rw [dir]
      simp [bind, Except.bind, pure, Except.pure, some]
      exact digits
    · rintro ⟨member, asked⟩
      obtain ⟨is, dir, same⟩ := bind_eq_ok_iff.mp asked
      have all : is = true ∧ name ≠ "" ∧ ∀ char ∈ name.toList, Text.isDigit char = true := by
        simpa [pure, Except.pure, and_assoc] using same
      exact ⟨⟨names, listed, member⟩, all.1 ▸ mapError_eq_ok_iff.mp dir, all.2.1, all.2.2⟩
  rw [numbersIn]
  cases numbered : names.filterM fun name => (do
      return (← (disk.isDir (archive.directory.child name)).mapError Failure.disk) &&
        !name.isEmpty && name.toList.all Text.isDigit : Except Failure Bool) with
  | error failure =>
    obtain ⟨name, member, fails⟩ := filterM_eq_error numbered
    cases asked : disk.isDir (archive.directory.child name) with
    | error fault =>
      rw [asked] at fails
      cases fails
      exact .unread fault (Disk.isSystem_of_isDir asked) (.inl ⟨names, name, fault, listed, member, asked⟩)
    | ok is =>
      rw [asked] at fails
      cases fails
  | ok kept =>
    obtain ⟨asked, members⟩ := mem_of_filterM numbered
    have unbarred : ¬ archive.IsBarred disk := by
      rintro ⟨names', name, fault, listed', member, barred⟩
      cases listed.symm.trans listed'
      obtain ⟨is, answered⟩ := asked name member
      rw [barred] at answered
      cases answered
    have counted : ∀ name, name ∈ kept ↔ archive.IsCounted disk name :=
      fun name => (members name).trans (isCounted_iff name).symm
    change archive.Search disk (do
      let ids ← kept.mapM fun name => ((Value.text name).toInteger).mapError Failure.value
      return sortBy (fun left right => left < right) ids)
    cases read : kept.mapM fun name => ((Value.text name).toInteger).mapError Failure.value with
    | error failure =>
      obtain ⟨before, name, after, -, rfl, -, fails⟩ := mapM_eq_error_iff.mp read
      have member : name ∈ before ++ name :: after := by simp
      cases spelled : (Value.text name).toInteger with
      | error fault =>
        rw [spelled] at fails
        cases fails
        exact .misread name fault unbarred ((counted name).mp member) spelled
      | ok id =>
        rw [spelled] at fails
        cases fails
    | ok numbers =>
      refine .found _ unbarred (fun name is => ?_) (pairwise_sortBy_le numbers) (fun id => ?_) ?_
      · obtain ⟨id, -, found⟩ := exists_of_mapM read name ((counted name).mpr is)
        exact ⟨id, mapError_eq_ok_iff.mp found⟩
      · rw [mem_sortBy]
        constructor
        · intro member
          obtain ⟨name, within, found⟩ := forall_of_mapM read id member
          exact ⟨name, (counted name).mp within, mapError_eq_ok_iff.mp found⟩
        · rintro ⟨name, is, spelled⟩
          obtain ⟨number, member, found⟩ := exists_of_mapM read name ((counted name).mpr is)
          rw [spelled] at found
          cases found
          exact member
      · intro distinct id unambiguous
        rw [(sortBy_perm numbers).count_eq]
        refine count_le_one_of_mapM read ?_ ?_
        · exact (sublist_of_filterM numbered).nodup (Disk.nodup_of_list distinct listed)
        · intro name member other member' spelled spelled'
          exact unambiguous name other ((counted name).mp member) ((counted other).mp member')
            (mapError_eq_ok_iff.mp spelled) (mapError_eq_ok_iff.mp spelled')

/-- The numbers that an archive finds are those of its snapshots, in order. -/
theorem search_ids (archive : Archive) (disk : Disk) : archive.Search disk (archive.ids disk) := by
  rw [ids]
  cases listed : disk.list archive.directory with
  | ok names =>
    rw [Disk.pathExists_of_list listed]
    exact search_numbersIn listed
  | error fault =>
    have unlisted : ∀ names, disk.list archive.directory ≠ .ok names := by
      rintro names listed'
      cases listed.symm.trans listed'
    cases stands : disk.pathExists archive.directory with
    | error barrier =>
      refine .unread barrier ?_ (.inr unlisted)
      rw [Disk.pathExists] at stands
      cases found : disk.status archive.directory with
      | error =>
        rw [found] at stands
        cases stands
        exact Disk.isSystem_of_status found
      | ok =>
        rw [found] at stands
        cases stands
    | ok is =>
      cases is with
      | true => exact .unread fault (Disk.isSystem_of_list stands listed) (.inr unlisted)
      | false =>
        refine .found [] ?_ (fun name is => absurd is (not_isCounted unlisted name)) .nil (fun id => ?_)
          fun _ _ _ => Nat.zero_le 1
        · rintro ⟨names, _, _, listed', -⟩
          exact unlisted names listed'
        · constructor
          · exact fun member => by cases member
          · rintro ⟨name, is, -⟩
            exact absurd is (not_isCounted unlisted name)

/-! ### Intact and damaged snapshots -/

def IsRecord (disk : Disk) (path : Path) (record : Record) : Prop :=
  ∃ bytes text value, disk.read (path.child "meta.json") = .ok bytes ∧
    Text.Utf8.read bytes = .ok text ∧ Value.Json.read (Text.unifyLines text) = .ok value ∧
    Record.ofValue value = .ok record

def IsCopy (disk : Disk) (path : Path) (file : String × String) (copy : String × Bytes) : Prop :=
  copy.1 = file.1 ∧ disk.read ((path.child "files").child file.1) = .ok copy.2 ∧
    Digest.ofBytes copy.2 = file.2

/-- The snapshot of a number is intact, and a checkpoint tells of it: its metadata form a record, and
all files of the record have copies with their digests. -/
structure IsIntact (archive : Archive) (disk : Disk) (id : Int) (point : Checkpoint) : Prop where
  path : point.path = archive.directory.child (nameOf id)
  record : IsRecord disk point.path point.record
  copies : List.Forall₂ (IsCopy disk point.path) point.record.files point.contents

/-- What is wrong with a snapshot: its metadata give no record, a file of the record cannot be read, or
it has another digest. -/
inductive Damage where
  | record (failure : Failure)
  | lost (fault : Disk.Fault)
  | changed

def Damage.isKnown : Damage → Bool
  | .record failure => failure.spoilsRecord
  | .lost fault => fault.isSystem
  | .changed => true

/-- The first thing that is wrong with the snapshot of a number. -/
inductive IsDamaged (archive : Archive) (disk : Disk) (id : Int) : Damage → Prop where
  | record {failure : Failure} :
    readRecord disk (archive.directory.child (nameOf id)) = .error failure →
    IsDamaged archive disk id (.record failure)
  | lost {record : Record} {before after : List (String × String)} {file : String × String}
    {copies : List (String × Bytes)} {fault : Disk.Fault} :
    IsRecord disk (archive.directory.child (nameOf id)) record →
    record.files = before ++ file :: after →
    List.Forall₂ (IsCopy disk (archive.directory.child (nameOf id))) before copies →
    disk.read (((archive.directory.child (nameOf id)).child "files").child file.1) = .error fault →
    IsDamaged archive disk id (.lost fault)
  | changed {record : Record} {before after : List (String × String)} {file : String × String}
    {copies : List (String × Bytes)} {data : Bytes} :
    IsRecord disk (archive.directory.child (nameOf id)) record →
    record.files = before ++ file :: after →
    List.Forall₂ (IsCopy disk (archive.directory.child (nameOf id))) before copies →
    disk.read (((archive.directory.child (nameOf id)).child "files").child file.1) = .ok data →
    Digest.ofBytes data ≠ file.2 → IsDamaged archive disk id .changed

theorem readRecord_eq_ok_iff : readRecord disk path = .ok record ↔ IsRecord disk path record := by
  simp only [readRecord, IsRecord, bind_eq_ok_iff, mapError_eq_ok_iff]
  constructor
  · rintro ⟨bytes, read, text, decoded, value, parsed, formed⟩
    exact ⟨bytes, text, value, read, decoded, parsed, formed⟩
  · rintro ⟨bytes, text, value, read, decoded, parsed, formed⟩
    exact ⟨bytes, read, text, decoded, value, parsed, formed⟩

theorem readCopy_eq_ok_iff {copy : String × Bytes} :
    readCopy disk path file = .ok copy ↔ IsCopy disk path file copy := by
  rw [readCopy, IsCopy]
  constructor
  · intro read
    split at read
    · split at read <;> cases read
    · next data found =>
      split at read
      · next same =>
        cases read
        exact ⟨rfl, found, same⟩
      · cases read
  · obtain ⟨name, data⟩ := copy
    rintro ⟨rfl, found, same⟩
    rw [found]
    exact if_pos same

theorem readCopies_eq_ok_iff {files : List (String × String)} :
    files.mapM (readCopy disk path) = .ok copies ↔ List.Forall₂ (IsCopy disk path) files copies := by
  rw [mapM_eq_ok_iff_forall₂]
  simp only [readCopy_eq_ok_iff]

theorem load_eq_ok_iff : archive.load disk id = .ok point ↔ archive.IsIntact disk id point := by
  rw [load]
  constructor
  · intro loaded
    cases read : readRecord disk (archive.directory.child (nameOf id)) with
    | error failure =>
      simp only [read] at loaded
      split at loaded <;> cases loaded
    | ok record =>
      simp only [read] at loaded
      obtain ⟨copies, found, same⟩ := bind_eq_ok_iff.mp loaded
      cases same
      exact ⟨rfl, readRecord_eq_ok_iff.mp read, readCopies_eq_ok_iff.mp found⟩
  · rintro ⟨path, record, copies⟩
    rw [path] at record copies
    rw [readRecord_eq_ok_iff.mpr record]
    dsimp only
    rw [readCopies_eq_ok_iff.mpr copies, ← path]
    rfl

theorem isOrdinary_of_readRecord
    (fails : readRecord disk path = .error failure) : failure.isOrdinary = true :=
  Failure.isOrdinary_of_isAmong (confined_readRecord disk path failure fails) not_mem_nil

theorem load_of_readCopy {before after : List (String × String)}
    (formed : IsRecord disk (archive.directory.child (nameOf id)) record)
    (files : record.files = before ++ file :: after)
    (whole : List.Forall₂ (IsCopy disk (archive.directory.child (nameOf id))) before copies)
    (fails : readCopy disk (archive.directory.child (nameOf id)) file = .error failure) :
    archive.load disk id = .error failure := by
  rw [load]
  simp only [readRecord_eq_ok_iff.mpr formed, files]
  rw [mapM_eq_error_iff.mpr
    ⟨before, file, after, copies, rfl, readCopies_eq_ok_iff.mpr whole, fails⟩]
  rfl

/-- A damaged snapshot is not loaded. That it is damaged is said of those whose damage is known, and of
no others. -/
theorem load_of_isDamaged (damaged : archive.IsDamaged disk id damage) :
    ∃ failure, archive.load disk id = .error failure ∧ failure.isOrdinary = !damage.isKnown := by
  cases damaged with
  | @record failure fails =>
    have ordinary := isOrdinary_of_readRecord fails
    rw [load, Damage.isKnown]
    simp only [fails]
    cases failure.spoilsRecord with
    | true => exact ⟨_, rfl, rfl⟩
    | false => exact ⟨failure, rfl, ordinary⟩
  | @lost record before after file copies fault formed files whole missing =>
    have fails : ∃ failure,
        readCopy disk (archive.directory.child (nameOf id)) file = .error failure ∧
          failure.isOrdinary = !fault.isSystem := by
      rw [readCopy]
      simp only [missing]
      cases fault.isSystem with
      | true => exact ⟨_, rfl, rfl⟩
      | false => exact ⟨_, rfl, rfl⟩
    obtain ⟨failure, fails, ordinary⟩ := fails
    exact ⟨failure, load_of_readCopy formed files whole fails, ordinary⟩
  | @changed record before after file copies data formed files whole read differ =>
    have fails : readCopy disk (archive.directory.child (nameOf id)) file = .error
        (.resume (.corruptedCopy (archive.directory.child (nameOf id)).text file.1)) := by
      rw [readCopy]
      simp only [read, if_neg differ]
    exact ⟨_, load_of_readCopy formed files whole fails, rfl⟩

theorem isIntact_or_isDamaged (archive : Archive) (disk : Disk) (id : Int) :
    (∃ point, archive.IsIntact disk id point) ∨ ∃ damage, archive.IsDamaged disk id damage := by
  cases read : readRecord disk (archive.directory.child (nameOf id)) with
  | error failure => exact .inr ⟨_, .record read⟩
  | ok record =>
    have formed := readRecord_eq_ok_iff.mp read
    cases all : record.files.mapM (readCopy disk (archive.directory.child (nameOf id))) with
    | ok copies => exact .inl ⟨⟨record, copies, _⟩, rfl, formed, readCopies_eq_ok_iff.mp all⟩
    | error failure =>
      obtain ⟨before, file, after, copies, files, whole, fails⟩ := mapM_eq_error_iff.mp all
      have whole := readCopies_eq_ok_iff.mp whole
      cases found : disk.read (((archive.directory.child (nameOf id)).child "files").child file.1) with
      | error fault => exact .inr ⟨_, .lost formed files whole found⟩
      | ok data =>
        by_cases same : Digest.ofBytes data = file.2
        · rw [readCopy, found] at fails
          simp only [if_pos same] at fails
          cases fails
        · exact .inr ⟨_, .changed formed files whole found same⟩

/-! ### Going on from a snapshot -/

/-- How the search through some snapshots for an intact one ends: at the first that is intact, past
damage that is known; past all of them; or at damage that is not known. -/
inductive Picks (archive : Archive) (disk : Disk) : List Int → Except Failure Checkpoint → Prop where
  | intact {id : Int} {rest : List Int} {point : Checkpoint} : archive.IsIntact disk id point →
    Picks archive disk (id :: rest) (.ok point)
  | unknown {id : Int} {rest : List Int} {damage : Damage} {failure : Failure} :
    archive.IsDamaged disk id damage → damage.isKnown = false → failure.isOrdinary = true →
    Picks archive disk (id :: rest) (.error failure)
  | known {id : Int} {rest : List Int} {damage : Damage} {result : Except Failure Checkpoint} :
    archive.IsDamaged disk id damage → damage.isKnown = true → Picks archive disk rest result →
    Picks archive disk (id :: rest) result
  | none (fault : ResumeFault) : Picks archive disk [] (.error (.resume fault))

theorem picks_loadFirst (archive : Archive) (disk : Disk) (problems : List String) (ids : List Int) :
    archive.Picks disk ids (archive.loadFirst disk problems ids) := by
  induction ids generalizing problems with
  | nil => exact .none _
  | cons id rest ih =>
    rw [loadFirst]
    rcases archive.isIntact_or_isDamaged disk id with ⟨point, intact⟩ | ⟨damage, damaged⟩
    · simp only [load_eq_ok_iff.mpr intact]
      exact .intact intact
    · obtain ⟨failure, fails, ordinary⟩ := load_of_isDamaged damaged
      simp only [fails]
      cases known : damage.isKnown with
      | true =>
        rw [known] at ordinary
        cases failure with
        | resume fault => exact .known damaged known (ih _)
        | _ => cases ordinary
      | false =>
        rw [known] at ordinary
        cases failure with
        | resume fault => cases ordinary
        | _ => exact .unknown damaged known ordinary

/-- What is to be found among some snapshots: the intact one of the highest number, or that there is
none. -/
def IsNewest (archive : Archive) (disk : Disk) (has : Int → Prop) :
    Except Failure Checkpoint → Prop
  | .ok point => ∃ id, has id ∧ archive.IsIntact disk id point ∧
    ∀ other point, has other → archive.IsIntact disk other point → other ≤ id
  | .error (.resume _) => ∀ id point, has id → ¬ archive.IsIntact disk id point
  | .error _ => False

/-- The damage to those of some snapshots that are newer than all intact ones is known. -/
def Knows (archive : Archive) (disk : Disk) (has : Int → Prop) : Prop :=
  ∀ id damage, has id → archive.IsDamaged disk id damage →
    (∀ other point, has other → id ≤ other → ¬ archive.IsIntact disk other point) →
    damage.isKnown = true

theorem IsIntact.not_isDamaged
    (intact : archive.IsIntact disk id point) : ¬ archive.IsDamaged disk id damage := by
  intro damaged
  obtain ⟨failure, fails, -⟩ := load_of_isDamaged damaged
  cases (load_eq_ok_iff.mpr intact).symm.trans fails

theorem IsDamaged.isKnown_eq {other : Damage} (damaged : archive.IsDamaged disk id damage)
    (damaged' : archive.IsDamaged disk id other) : damage.isKnown = other.isKnown := by
  obtain ⟨failure, fails, ordinary⟩ := load_of_isDamaged damaged
  obtain ⟨failure', fails', ordinary'⟩ := load_of_isDamaged damaged'
  cases fails.symm.trans fails'
  simpa using ordinary.symm.trans ordinary'

/-- What is picked from some snapshots, the newest first, is what is to be found among them exactly if
the damage met on the way is known. -/
theorem Picks.isNewest_iff {result : Except Failure Checkpoint} (sorted : ids.Pairwise (· ≥ ·))
    (picks : archive.Picks disk ids result) :
    archive.IsNewest disk (· ∈ ids) result ↔ archive.Knows disk (· ∈ ids) := by
  induction picks with
  | none fault =>
    exact ⟨fun _ _ _ member => (by cases member), fun _ _ _ member => (by cases member)⟩
  | @intact id rest point intact =>
    have newest : ∀ other ∈ id :: rest, other ≤ id := by
      intro other member
      rcases mem_cons.mp member with rfl | member
      · exact Int.le_refl _
      · exact rel_of_pairwise_cons sorted member
    refine iff_of_true ?_ ?_
    · exact ⟨id, mem_cons_self, intact, fun other _ member _ => newest other member⟩
    · intro other damage member damaged unbroken
      exact absurd intact (unbroken id point mem_cons_self (newest other member))
  | @unknown id rest damage failure damaged unknown ordinary =>
    refine iff_of_false ?_ ?_
    · cases failure with
      | resume fault => cases ordinary
      | _ => exact fun none => none
    · intro knows
      have known := knows id damage mem_cons_self damaged fun other point member above intact => by
        rcases mem_cons.mp member with rfl | member
        · exact intact.not_isDamaged damaged
        · have below : other ≤ id := rel_of_pairwise_cons sorted member
          exact (Int.le_antisymm below above ▸ intact).not_isDamaged damaged
      rw [unknown] at known
      cases known
  | @known id rest damage result damaged known picks ih =>
    -- a damaged snapshot is not the one to be found
    have others : ∀ other point, archive.IsIntact disk other point →
        (other ∈ id :: rest ↔ other ∈ rest) := by
      intro other point intact
      rw [mem_cons, or_iff_right]
      rintro rfl
      exact intact.not_isDamaged damaged
    have found : archive.IsNewest disk (· ∈ id :: rest) result ↔
        archive.IsNewest disk (· ∈ rest) result := by
      rcases result with failure | point
      · cases failure with
        | resume fault => grind [IsNewest]
        | _ => rfl
      · grind [IsNewest]
    rw [found, ih (List.Pairwise.of_cons sorted)]
    constructor
    · intro knows other harm member harmed unbroken
      rcases mem_cons.mp member with rfl | member
      · exact (harmed.isKnown_eq damaged).trans known
      · refine knows other harm member harmed fun newer point within above => ?_
        exact unbroken newer point (mem_cons_of_mem _ within) above
    · intro knows other harm member harmed unbroken
      refine knows other harm (mem_cons_of_mem _ member) harmed fun newer point within above => ?_
      exact fun intact => unbroken newer point ((others newer point intact).mp within) above intact

/-- What an archive goes on from is its intact snapshot of the highest number, or it says that there is
none, exactly in two cases: an entry of its directory cannot be asked about, and no snapshot is intact;
or all entries can be asked about, the names of directories that are made of digits are numbers, and
the damage to snapshots newer than all intact ones is known. -/
theorem resume_isNewest_iff (archive : Archive) (disk : Disk) :
    archive.IsNewest disk (archive.Has disk) ((archive.resume disk).map Prod.fst) ↔
      archive.IsBarred disk ∧ (∀ id point, archive.Has disk id → ¬ archive.IsIntact disk id point) ∨
      ¬ archive.IsBarred disk ∧
        (∀ name, archive.IsCounted disk name → ∃ id, (Value.text name).toInteger = .ok id) ∧
        archive.Knows disk (archive.Has disk) := by
  have search := archive.search_ids disk
  rw [resume]
  generalize archive.ids disk = result at search
  cases search with
  | unread fault system why =>
    have fails : Failure.system? (.disk fault) = some fault := by simp [Failure.system?, system]
    simp only [fails]
    change (∀ id point, _) ↔ _
    rcases why with barred | unlisted
    · simp [barred]
    · have none : ∀ id, ¬ archive.Has disk id := by
        rintro id ⟨name, counted, -⟩
        exact not_isCounted unlisted name counted
      have unbarred : ¬ archive.IsBarred disk := by
        rintro ⟨names, -, -, listed, -⟩
        exact unlisted names listed
      simp [none, unbarred, not_isCounted unlisted, Knows]
  | misread name fault unbarred counted fails =>
    change False ↔ _
    simp only [unbarred, not_false_eq_true, true_and, false_and, false_or, false_iff, not_and]
    intro numbers
    obtain ⟨id, spelled⟩ := numbers name counted
    cases spelled.symm.trans fails
  | found ids unbarred numbers sorted members _ =>
    have same : archive.Has disk = (· ∈ ids.reverse) := by
      funext id
      rw [List.mem_reverse, members]
    have descending : ids.reverse.Pairwise (· ≥ ·) := List.pairwise_reverse.mpr sorted
    have picks := archive.picks_loadFirst disk [] ids.reverse
    have first : (do
        let point ← archive.loadFirst disk [] ids.reverse
        return (point, { archive with lastId := ids.foldl max archive.lastId }) :
          Except Failure (Checkpoint × Archive)).map Prod.fst =
        archive.loadFirst disk [] ids.reverse := by
      cases archive.loadFirst disk [] ids.reverse <;> rfl
    simp only [first, unbarred, not_false_eq_true, true_and, false_and, false_or]
    rw [same, picks.isNewest_iff descending]
    exact ⟨fun knows => ⟨numbers, knows⟩, And.right⟩

theorem mem_ids_iff (found : archive.ids disk = .ok ids) : id ∈ ids ↔ archive.Has disk id := by
  have search := archive.search_ids disk
  rw [found] at search
  cases search with
  | found _ _ _ _ members _ => exact members id

end Archive

namespace Sample

/-- A disk with two snapshots of no files. The metadata of the newer one have a list where the copies
and their digests should be. -/
def listed : Disk where
  home := ["work"]
  entries := [
    (["work", "snaps"], .dir),
    (["work", "snaps", "000001"], .dir),
    (["work", "snaps", "000001", "meta.json"], .file (.ofBytes (Bytes.ofText
      "\x7b\"id\":1,\"timestamp\":0,\"root\":\"project\",\"size\":0,\"files\":\x7b\x7d\x7d"))
      Disk.newMode),
    (["work", "snaps", "000002"], .dir),
    (["work", "snaps", "000002", "meta.json"], .file (.ofBytes (Bytes.ofText
      "\x7b\"id\":2,\"timestamp\":0,\"root\":\"project\",\"size\":0,\"files\":[]\x7d"))
      Disk.newMode)]

def shelf : Archive := { directory := Path.ofText "snaps" }

/-- The older snapshot is intact, but the damage to the newer one is not known, and that is what an
archive says. -/
theorem resume_listed_fails : shelf.Has listed 1 ∧ (∃ point, shelf.IsIntact listed 1 point) ∧
    shelf.resume listed = .error (.value (.noMember .list "items")) ∧
    ¬ shelf.IsNewest listed (shelf.Has listed) ((shelf.resume listed).map Prod.fst) := by
  have numbers : shelf.ids listed = .ok [1, 2] := by
    decide +kernel
  have loads : (shelf.load listed 1).isOk = true := by
    decide +kernel
  have resumes : Step.Outcome (fun _ _ => False)
      (fun failure _ => failure = .value (.noMember .list "items")) (shelf.resume listed, ()) := by
    decide +kernel
  have fails : shelf.resume listed = .error (.value (.noMember .list "items")) := by
    cases ran : shelf.resume listed with
    | ok value =>
      rw [ran] at resumes
      exact resumes.elim
    | error failure =>
      rw [ran] at resumes
      exact congrArg Except.error resumes
  refine ⟨(Archive.mem_ids_iff numbers).mp (by decide), ?_, fails, ?_⟩
  · cases loaded : shelf.load listed 1 with
    | ok point => exact ⟨point, Archive.load_eq_ok_iff.mp loaded⟩
    | error failure =>
      rw [loaded] at loads
      cases loads
  · rw [fails]
    exact fun none => none

end Sample
end Whittle
