import Whittle.Proofs.Archive.Shelf

/-!
Numbers, retention and spacing of snapshots. A tidy directory stays so whatever is offered to the
archive, and what is returned as written is kept in place of the oldest snapshots. Over any sequence
of requests, some of which may fail, numbers increase, as many snapshots are kept as are to be, and
none is written too soon after the one before (`Archive.calls_lawful`).
-/

namespace Whittle

open List

namespace Archive

open Disk (Place IsPlain Opens Shrinks)
open Decimal (Number)

variable {archive : Archive} {directory : Path} {folder : Place} {disk before after : Disk}
  {id : Int} {ids : List Int}

/-! ### Keeping as many as are to be kept -/

/-- Where something was taken away, an archive still finds numbers. -/
theorem Tidy.exists_ids_of_shrinks (tidy : Tidy archive.directory folder before)
    (tidy' : Tidy archive.directory folder after) (opens : before.Opens archive.directory folder)
    (opens' : after.Opens archive.directory folder) (passable : archive.directory.Passable [])
    (shrinks : Shrinks before after) (found : archive.ids before = .ok ids) :
    ∃ ids, archive.ids after = .ok ids := by
  have search := archive.search_ids before
  rw [found] at search
  cases search with
  | found _ unbarred =>
    refine tidy'.exists_ids opens' passable ?_
    rintro ⟨names, name, fault, list, member, fails⟩
    cases (opens'.list_eq tidy'.tree passable).symm.trans list
    rw [Disk.mem_namesIn_iff_get? (opens'.outside _ (by simp))] at member
    obtain ⟨entry, stands⟩ := Option.ne_none_iff_exists'.mp member
    have listed : name ∈ before.namesIn folder :=
      (Disk.mem_namesIn_iff_get? (opens.outside _ (by simp))).mpr (by simp [shrinks.had _ _ stands])
    rcases asked : before.isDir (archive.directory.child name) with fault' | is
    · exact unbarred ⟨_, name, fault', opens.list_eq tidy.tree passable, listed, asked⟩
    · obtain ⟨_, answered⟩ := shrinks.exists_isDir asked
      cases answered.symm.trans fails

theorem Tidy.removed (tidy : Tidy directory folder before)
    (removed : Removed directory folder ids before after) (natural : ∀ id ∈ ids, 0 ≤ id) :
    Tidy directory folder after ∧
      ∀ id, Stands folder after id ↔ id ∉ ids ∧ Stands folder before id := by
  constructor
  · refine tidy.of_places removed.tree removed.distinct (.opened removed.opens) fun name _ stands => .inl ?_
    exact removed.others name (fun id gone same => stands (same ▸ removed.gone id gone)) []
  · intro id
    by_cases gone : id ∈ ids
    · rw [Stands, removed.gone id gone]
      simp [gone]
    · rw [Stands, Stands, and_iff_right gone]
      refine and_congr_right fun natural' => ?_
      rw [removed.others (nameOf id) (fun other member same => gone ?_) []]
      exact nameOf_inj (natural other member) natural' same ▸ member

/-- How many of so many snapshots are kept. If that is no whole number then none is removed. -/
def allowance : Number → Nat → Nat
  | .int kept, count => min kept.toNat count
  | .float _, count => count

/-- Of the numbers before and a new one, as many of the highest as are to be kept are there after. -/
structure Retains (retention : Number) (before : List Int) (id : Int) (after : List Int) : Prop where
  order : (before ++ [id]).Pairwise (· < ·)
  highest : after <:+ before ++ [id]
  count : after.length = allowance retention (before.length + 1)
  newest : retention.lt (.int 1) = false → id ∈ after

theorem retains_drop {retention : Number} {many : Nat} (order : (ids ++ [id]).Pairwise (· < ·))
    (found : surplus retention (ids ++ [id]).length = .ok many) :
    Retains retention ids id ((ids ++ [id]).drop many) := by
  rw [length_append, length_singleton] at found
  refine ⟨order, drop_suffix _ _, ?_, fun ample => ?_⟩
  · rw [length_drop, length_append, length_singleton]
    cases retention with
    | int kept =>
      cases found
      change ids.length + 1 - _ = min kept.toNat (ids.length + 1)
      omega
    | float kept =>
      rw [surplus] at found
      split at found
      · cases found
      · cases found
        rfl
  · rw [drop_append_of_le_length (surplus_le ample found)]
    exact mem_append_right _ (mem_singleton_self id)

/-- Once a snapshot is written, the oldest that are too many go. -/
theorem evict_ends (tidy : Tidy archive.directory folder disk)
    (opens : disk.Opens archive.directory folder) (passable : archive.directory.Passable [])
    (usable : ∀ id, Disk.unusable? (archive.directory.down [nameOf id]).text = none)
    (lists : Lists folder disk (ids ++ [id])) :
    evict.Ends
      (fun _ pair => pair.1 = archive ∧ Tidy archive.directory folder pair.2 ∧
        ∃ left, archive.ids pair.2 = .ok left ∧ Retains archive.retention ids id left)
      (fun _ pair => pair.1 = archive ∧ Tidy archive.directory folder pair.2) (archive, disk) := by
  rw [evict, ends_get_bind]
  dsimp only
  rw [ends_bind, ends_lift]
  refine ⟨fun found listed => ?_, fun _ _ => ⟨rfl, tidy⟩⟩
  obtain rfl : found = ids ++ [id] := by
    have lists' := tidy.lists_ids opens passable usable listed
    exact eq_of_mem_iff lists'.order lists.order fun other =>
      (lists'.members other).trans (lists.members other).symm
  rw [ends_bind, ends_lift]
  refine ⟨fun many counted => ?_, fun _ _ => ⟨rfl, tidy⟩⟩
  rw [onDisk, ends_within]
  have natural : ∀ other ∈ (ids ++ [id]).take many, 0 ≤ other := fun other member =>
    ((lists.members other).mp (mem_of_mem_take member)).1
  refine (removeSnapshots_ends (.refl opens tidy.tree tidy.distinct)).imp ?_ ?_
  case refine_2 =>
    rintro _ after ⟨gone, among, removed, -⟩
    exact ⟨rfl, (tidy.removed removed fun other member => natural other (among other member)).1⟩
  rintro _ after removed
  obtain ⟨tidy', stands⟩ := tidy.removed removed natural
  obtain ⟨left, found⟩ := tidy.exists_ids_of_shrinks tidy' opens removed.opens passable removed.shrinks
    listed
  refine ⟨rfl, tidy', left, found, ?_⟩
  have lists' := tidy'.lists_ids removed.opens passable usable found
  obtain rfl : left = (ids ++ [id]).drop many := by
    refine eq_of_mem_iff lists'.order (lists.order.drop) fun other => ?_
    rw [lists'.members, stands, nil_append, ← lists.members]
    have apart : ((ids ++ [id]).take many).Disjoint ((ids ++ [id]).drop many) :=
      disjoint_take_drop (lists.order.imp fun below => Int.ne_of_lt below) (Nat.le_refl many)
    have whole := take_append_drop many (ids ++ [id])
    constructor
    · rintro ⟨kept, member⟩
      rw [← whole, mem_append] at member
      exact member.resolve_left kept
    · exact fun member => ⟨fun taken => apart taken member, mem_of_mem_drop member⟩
  exact retains_drop lists.order counted

/-! ### Numbers -/

section Numbers

variable {finish : Finish} {capture : Capture} {now : Float} {record : Record}

/-- A number that is given is above those that were found before. -/
theorem Begins.above_ids (begins : archive.Begins disk id after) (found : archive.ids disk = .ok ids) :
    ∀ other ∈ ids, other < id := by
  intro other member
  obtain ⟨name, counted, -⟩ := (mem_ids_iff found).mp member
  obtain ⟨names, listed, -⟩ := counted.listed
  have same := Disk.makeDirs_of_isDir (Disk.isDir_of_list listed) true
  rw [begins.making] at same
  obtain rfl : after = disk := same
  exact begins.above found other member

/-- A snapshot that is written has a number above those that were there and those given before. -/
theorem write_numbers (finish : Finish) (capture : Capture) (now : Float) (archive : Archive)
    (disk : Disk) :
    (write finish capture now).Ends
      (fun record pair => pair.1 = { archive with lastId := record.id } ∧ archive.lastId < record.id ∧
        ∀ ids, archive.ids disk = .ok ids → ∀ id ∈ ids, id < record.id)
      (fun _ pair => ∃ lastId, archive.lastId ≤ lastId ∧ pair.1 = { archive with lastId })
      (archive, disk) := by
  refine (write_parts finish capture now archive disk).imp ?_ ?_
  · rintro record pair ⟨made, begins, same, -⟩
    exact ⟨same, begins.later, fun ids found => begins.above_ids found⟩
  · rintro failure pair (rfl | ⟨id, made, cause, left, begins, same, -⟩)
    · exact ⟨_, Int.le_refl _, rfl⟩
    · exact ⟨id, Int.le_of_lt begins.later, same⟩

/-! ### Tidy directories stay so -/

theorem Tidy.makeDirs (tidy : Tidy directory folder disk) :
    Tidy directory folder (disk.makeDirs true directory).2 :=
  tidy.of_places (tidy.tree.makeDirs _ _) (tidy.distinct.makeDirs _ _)
    (tidy.approaches.makeDirs tidy.tree) fun _ _ _ =>
      .inl (tidy.approaches.get?_makeDirs tidy.tree (by simp))

theorem Tidy.unpublished (tidy : Tidy directory folder before) (opens : before.Opens directory folder)
    (left : Unpublished directory folder id before after) (distinct : after.IsDistinct) :
    Tidy directory folder after :=
  tidy.of_places left.tree distinct (.opened (left.opens opens)) fun _ numeral _ =>
    .inl (left.get?_eq (numeral.ne_stagingName id) [])

theorem Tidy.published (tidy : Tidy directory folder before) (natural : 0 ≤ id)
    (published : Published directory folder id before after) (distinct : after.IsDistinct) :
    Tidy directory folder after ∧
      ∀ other, Stands folder after other ↔ other = id ∨ Stands folder before other := by
  constructor
  · refine tidy.of_places published.tree distinct (.opened published.opens) fun name numeral _ => ?_
    by_cases new : name = nameOf id
    · exact .inr ⟨new ▸ published.dir, id, natural, new⟩
    · exact .inl (published.get?_eq (numeral.ne_stagingName id) new [])
  · intro other
    by_cases new : other = id
    · rw [new]
      exact iff_of_true ⟨natural, published.dir⟩ (.inl rfl)
    · rw [or_iff_right new, Stands, Stands]
      refine and_congr_right fun natural' => ?_
      rw [published.get?_eq (stagingName_ne id other).symm fun same => ?_]
      exact new (nameOf_inj natural' natural same)

theorem Tidy.ids_eq (tidy : Tidy archive.directory folder disk)
    (making : disk.makeDirs true archive.directory = (.ok (), after))
    (found : archive.ids after = .ok ids) (lists : Lists folder after ids) :
    archive.ids disk = .ok ids := by
  have opens := tidy.approaches.opens_of_makeDirs tidy.tree making
  rcases tidy.approaches.opens_or_missing making opens with there | ⟨missing, nothing⟩
  · have same := there.makeDirs_self tidy.tree true
    rw [making] at same
    obtain rfl : after = disk := same
    exact found
  · have none : ids = [] := by
      refine eq_nil_iff_forall_not_mem.mpr fun id member => ?_
      obtain ⟨-, dir⟩ := (lists.members id).mp member
      have same := tidy.approaches.get?_makeDirs tidy.tree (show [nameOf id] ≠ [] by simp)
      rw [making, nothing, dir] at same
      cases same
    rw [Archive.ids, missing, none]
    rfl

section Write

variable {finish : Finish} {capture : Capture} {now : Float}
  (tidy : Tidy archive.directory folder disk)
  (inner : ∀ file ∈ orderedFiles capture.project, Path.IsInner file.1)
  (stays : finish.StaysIn archive.directory folder)

/-- What is in the directory of an archive once a snapshot is written. -/
structure Written (archive : Archive) (folder : Place) (disk : Disk) (id : Int) (after : Disk) : Prop where
  tidy : Tidy archive.directory folder after
  opens : after.Opens archive.directory folder
  passable : archive.directory.Passable []
  usable : ∀ id, Disk.unusable? (archive.directory.down [nameOf id]).text = none
  lists : ∃ ids, archive.ids disk = .ok ids ∧ Lists folder after (ids ++ [id])

include tidy inner stays

/-- A snapshot that is written stands in a directory that is tidy, and if it cannot be written the
directory is tidy all the same. -/
theorem write_tidies (natural : 0 ≤ archive.lastId) :
    (write finish capture now).Ends
      (fun record pair => Written archive folder disk record.id pair.2)
      (fun _ pair => Tidy archive.directory folder pair.2) (archive, disk) := by
  have begun : ∀ {id made}, archive.Begins disk id made → made.Opens archive.directory folder ∧
      Tidy archive.directory folder made := by
    intro id made begins
    have tidy' := tidy.makeDirs
    rw [begins.making] at tidy'
    exact ⟨tidy.approaches.opens_of_makeDirs tidy.tree begins.making, tidy'⟩
  refine (write_parts finish capture now archive disk).imp ?_ ?_
  · rintro record ⟨_, after⟩ ⟨made, begins, -, ran⟩
    obtain ⟨opens, tidy'⟩ := begun begins
    have passable := Disk.passable_of_makeDirs begins.making
    have natural : 0 ≤ record.id := by
      have := begins.later
      omega
    have published := (ends_ok ran).mp (publish_ends opens tidy'.tree inner stays record.id now)
    have distinct : after.IsDistinct :=
      (publish_keeps_distinct stays.distinct capture record.id now).of_runOn tidy'.distinct ran
    obtain ⟨tidy'', stands⟩ := tidy'.published natural published distinct
    have usable := usable_nameOf published.passable
    obtain ⟨ids, found, -⟩ := begins.number
    have lists := tidy'.lists_ids opens passable usable found
    refine ⟨tidy'', published.opens, passable, usable, ids, tidy.ids_eq begins.making found lists, ?_, ?_⟩
    · refine pairwise_append.mpr ⟨lists.order, pairwise_singleton _ _, ?_⟩
      intro other member _ new
      rw [mem_singleton.mp new]
      exact begins.above found other member
    · intro other
      rw [stands, ← lists.members, mem_append, mem_singleton, or_comm]
  · rintro failure pair (rfl | ⟨id, made, cause, left, begins, -, -, ran, clears⟩)
    · exact tidy.makeDirs
    · obtain ⟨opens, tidy'⟩ := begun begins
      have unpublished := (ends_error ran).mp (publish_ends opens tidy'.tree inner stays id now)
      have distinct : left.IsDistinct :=
        (ends_error ran).mp (publish_keeps_distinct stays.distinct capture id now made tidy'.distinct)
      refine tidy'.unpublished opens (unpublished.clears opens clears) ?_
      rcases clears with removed | ⟨same, -⟩
      · exact distinct.removeTree removed
      · exact same ▸ distinct

/-- What is offered leaves the directory tidy, and a snapshot that is returned takes the place of the
oldest that are too many. -/
theorem offer_tidies (natural : 0 ≤ archive.lastId) (now : Float) :
    (offer finish capture now).Ends
      (fun answer pair => Tidy archive.directory folder pair.2 ∧ ∀ record, answer = some record →
        ∃ before after, archive.ids disk = .ok before ∧ archive.ids pair.2 = .ok after ∧
          Retains archive.retention before record.id after)
      (fun _ pair => Tidy archive.directory folder pair.2) (archive, disk) := by
  rw [offer, ends_get_bind, ends_bind, ends_lift]
  refine ⟨fun soon _ => ?_, fun _ _ => tidy⟩
  rw [ends_ite]
  refine ⟨fun _ => ⟨tidy, fun _ same => by cases same⟩, fun _ => ?_⟩
  refine ((write_tidies tidy inner stays natural).and
    (write_numbers finish capture now archive disk)).bind ?_ fun _ _ all => all.1
  rintro record ⟨_, after⟩ ⟨written, rfl, -⟩
  rw [ends_bind, note, ends_modify]
  obtain ⟨ids, found, lists⟩ := written.lists
  have evicted : evict.Ends _ _ ({ archive with
      lastId := record.id, lastWritten := some now, written := archive.written ++ [record.id] }, after) :=
    evict_ends written.tidy written.opens written.passable written.usable lists
  refine evicted.bind ?_ fun _ _ so => so.2
  rintro _ ⟨_, left⟩ ⟨rfl, tidy, remaining, found', retains⟩
  refine ⟨tidy, fun _ same => ?_⟩
  cases same
  exact ⟨ids, remaining, found, found', retains⟩

end Write

/-! ### Times -/

/-- An archive goes on from another: its settings are the same, numbers were only added, and if a
snapshot was written it was not too soon for one. -/
structure Follows (now : Float) (before after : Archive) : Prop where
  directory : after.directory = before.directory
  interval : after.interval = before.interval
  retention : after.retention = before.retention
  lastId : before.lastId ≤ after.lastId
  times : after.lastWritten = before.lastWritten ∧ after.written = before.written ∨
    before.tooSoon now = .ok false ∧ after.lastWritten = some now ∧
      ∃ id, after.written = before.written ++ [id]

theorem offer_follows (finish : Finish) (capture : Capture) (now : Float) (archive : Archive)
    (disk : Disk) :
    (offer finish capture now).Ends
      (fun answer pair => Follows now archive pair.1 ∧ ∀ record, answer = some record →
        pair.1.written = archive.written ++ [record.id] ∧ archive.lastId < record.id ∧
          ∀ ids, archive.ids disk = .ok ids → ∀ id ∈ ids, id < record.id)
      (fun _ pair => Follows now archive pair.1) (archive, disk) := by
  have stays : Follows now archive archive :=
    ⟨rfl, rfl, rfl, Int.le_refl _, .inl ⟨rfl, rfl⟩⟩
  rw [offer, ends_get_bind, ends_bind, ends_lift]
  refine ⟨fun soon asked => ?_, fun _ _ => stays⟩
  rw [ends_ite]
  refine ⟨fun _ => ⟨stays, fun _ same => by cases same⟩, fun late => ?_⟩
  have late : archive.tooSoon now = .ok false := by
    rw [Bool.not_eq_true] at late
    exact late ▸ mapError_eq_ok_iff.mp asked
  refine (write_numbers finish capture now archive disk).bind ?_ ?_
  · rintro record ⟨_, after⟩ ⟨rfl, later, above⟩
    rw [ends_bind, note, ends_modify]
    have follows : Follows now archive { archive with
        lastId := record.id, lastWritten := some now, written := archive.written ++ [record.id] } :=
      ⟨rfl, rfl, rfl, Int.le_of_lt later, .inr ⟨late, rfl, record.id, rfl⟩⟩
    have evicted : evict.Keeps fun pair => pair.1 = { archive with
        lastId := record.id, lastWritten := some now, written := archive.written ++ [record.id] } :=
      Step.keeps_get.bind fun _ => (keeps_lift _).bind fun _ => (keeps_lift _).bind fun _ =>
        keeps_within _ fun _ _ same => same
    refine (evicted _ rfl).bind ?_ ?_
    · rintro _ ⟨_, left⟩ rfl
      refine ⟨follows, fun _ same => ?_⟩
      cases same
      exact ⟨rfl, later, above⟩
    · rintro _ ⟨_, left⟩ rfl
      exact follows
  · rintro _ ⟨_, after⟩ ⟨lastId, later, rfl⟩
    exact ⟨rfl, rfl, rfl, later, .inl ⟨rfl, rfl⟩⟩

end Numbers

/-! ### Whole runs of requests -/

/-- A snapshot that is offered: what is done to it once it is staged, what it captures, and when. -/
structure Request where
  finish : Finish
  capture : Capture
  now : Float

/-- What came of a request: the archive and the disk before it, its answer, and both after it. -/
structure Call where
  request : Request
  before : Archive × Disk
  answer : Except Failure (Option Record)
  after : Archive × Disk

/-- Offers snapshots one after the other, whatever comes of each. -/
def calls : List Request → Archive × Disk → List Call
  | [], _ => []
  | request :: rest, state =>
    let ended := (offer request.finish request.capture request.now).runOn state
    { request, before := state, answer := ended.1, after := ended.2 } :: calls rest ended.2

/-- Whether a snapshot was written, be it that others could not be removed after that. -/
def Call.writes (call : Call) : Bool :=
  call.before.1.written.length < call.after.1.written.length

/-- A request keeps to the directory of its archive: the names of the files that are captured lead
down, and what is done to the staged snapshot stays in its directory. -/
structure Request.KeepsTo (request : Request) (directory : Path) (folder : Place) : Prop where
  inner : ∀ name, request.capture.project.tracks name = true → Path.IsInner name
  stays : request.finish.StaysIn directory folder

/-- The time from one moment to another is not shorter than an interval. -/
def IsSpaced (interval : Value) (first second : Float) : Prop :=
  ∀ limit, interval.number? = some limit → (Number.float (second - first)).lt limit = false

section Calls

variable {requests : List Request} {state : Archive × Disk} {call : Call} {record : Record}

theorem of_mem_calls (member : call ∈ calls requests state) :
    call.request ∈ requests ∧ (offer call.request.finish call.request.capture call.request.now).runOn
      call.before = (call.answer, call.after) := by
  induction requests generalizing state with
  | nil => cases member
  | cons request rest ih =>
    rcases mem_cons.mp member with rfl | later
    · exact ⟨mem_cons_self, rfl⟩
    · exact (ih later).imp_left (mem_cons_of_mem _)

theorem calls_keep (invariant : Archive × Disk → Prop)
    (step : ∀ request ∈ requests, ∀ state, invariant state →
      invariant ((offer request.finish request.capture request.now).runOn state).2)
    (begins : invariant state) (member : call ∈ calls requests state) : invariant call.before := by
  induction requests generalizing state with
  | nil => cases member
  | cons request rest ih =>
    rcases mem_cons.mp member with rfl | later
    · exact begins
    · exact ih (forall_mem_cons.mp step).2
        (step request mem_cons_self state begins) later

theorem follows_offer (request : Request) (state : Archive × Disk) :
    Follows request.now state.1
      ((offer request.finish request.capture request.now).runOn state).2.1 := by
  have ends : Step.Leaves _ (Follows request.now state.1 ·.1) state :=
    (offer_follows request.finish request.capture request.now state.1 state.2).imp (fun _ _ so => so.1)
      fun _ _ => id
  exact ends_const.mp ends

theorem new_of_answer (member : call ∈ calls requests state)
    (answered : call.answer = .ok (some record)) :
    call.after.1.written = call.before.1.written ++ [record.id] ∧ call.before.1.lastId < record.id ∧
      ∀ ids, call.before.1.ids call.before.2 = .ok ids → ∀ id ∈ ids, id < record.id := by
  obtain ⟨-, ran⟩ := of_mem_calls member
  rw [answered] at ran
  have ends := offer_follows call.request.finish call.request.capture call.request.now call.before.1
    call.before.2
  exact ((ends_ok ran).mp ends).2 record rfl

/-- Numbers that were given out are not given again. -/
theorem pairwise_calls (requests : List Request) (state : Archive × Disk) :
    (calls requests state).Pairwise fun earlier later => ∀ record,
      later.answer = .ok (some record) → earlier.after.1.lastId < record.id := by
  induction requests generalizing state with
  | nil => exact .nil
  | cons request rest ih =>
    refine .cons (fun later member record answered => ?_) (ih _)
    have below := calls_keep
      (fun pair => ((offer request.finish request.capture request.now).runOn state).2.1.lastId ≤
        pair.1.lastId)
      (fun other _ pair so => Int.le_trans so (follows_offer other pair).lastId) (Int.le_refl _) member
    exact Int.lt_of_le_of_lt below (new_of_answer member answered).2.1

/-- The times at which snapshots were written, from the last one before the run on, are spaced. -/
theorem isChain_calls (requests : List Request) (state : Archive × Disk) :
    (state.1.lastWritten.toList ++ ((calls requests state).filter Call.writes).map
      (·.request.now)).IsChain (IsSpaced state.1.interval) := by
  induction requests generalizing state with
  | nil => cases state.1.lastWritten <;> simp [calls]
  | cons request rest ih =>
    have follows := follows_offer request state
    have later := ih ((offer request.finish request.capture request.now).runOn state).2
    rw [follows.interval] at later
    rw [calls]
    rcases follows.times with ⟨last, written⟩ | ⟨late, last, id, written⟩
    · rw [filter_cons_of_neg (by simp [Call.writes, written]), ← last]
      exact later
    · rw [filter_cons_of_pos (by simp [Call.writes, written]), map_cons]
      rw [last] at later
      cases before : state.1.lastWritten with
      | none => exact later
      | some moment =>
        refine isChain_cons_cons.mpr ⟨fun limit known => ?_, later⟩
        rw [tooSoon, before, known] at late
        exact Except.ok.inj late

/-- An archive with a tidy directory whose settings are those of another. -/
structure Keeping (archive : Archive) (folder : Place) (state : Archive × Disk) : Prop where
  directory : state.1.directory = archive.directory
  retention : state.1.retention = archive.retention
  natural : 0 ≤ state.1.lastId
  tidy : Tidy state.1.directory folder state.2

theorem Keeping.offer_ends {archive : Archive} {request : Request} (keeping : Keeping archive folder state)
    (keepsTo : request.KeepsTo archive.directory folder) :
    (offer request.finish request.capture request.now).Ends
      (fun answer pair => Tidy state.1.directory folder pair.2 ∧ ∀ record, answer = some record →
        ∃ before after, state.1.ids state.2 = .ok before ∧ state.1.ids pair.2 = .ok after ∧
          Retains state.1.retention before record.id after)
      (fun _ pair => Tidy state.1.directory folder pair.2) state :=
  offer_tidies keeping.tidy (inner_of_tracked keepsTo.inner) (keeping.directory ▸ keepsTo.stays)
    keeping.natural request.now

theorem Keeping.offer {archive : Archive} {request : Request} (keeping : Keeping archive folder state)
    (keepsTo : request.KeepsTo archive.directory folder) :
    Keeping archive folder ((offer request.finish request.capture request.now).runOn state).2 := by
  have follows := follows_offer request state
  have ends : Step.Leaves _ (Tidy state.1.directory folder ·.2) state :=
    (keeping.offer_ends keepsTo).imp (fun _ _ so => so.1) fun _ _ => id
  exact ⟨follows.directory.trans keeping.directory, follows.retention.trans keeping.retention,
    Int.le_trans keeping.natural follows.lastId, follows.directory ▸ ends_const.mp ends⟩

/-- In a tidy directory each snapshot that is returned takes the place of the oldest that are too
many. -/
theorem retains_of_answer {archive : Archive} (keeping : Keeping archive folder state)
    (keepsTo : ∀ request ∈ requests, request.KeepsTo archive.directory folder)
    (member : call ∈ calls requests state) (answered : call.answer = .ok (some record)) :
    ∃ before after, call.before.1.ids call.before.2 = .ok before ∧
      call.after.1.ids call.after.2 = .ok after ∧
      Retains archive.retention before record.id after := by
  have keeping := calls_keep (Keeping archive folder)
    (fun request asked _ so => so.offer (keepsTo request asked)) keeping member
  obtain ⟨asked, ran⟩ := of_mem_calls member
  have follows := follows_offer call.request call.before
  rw [answered] at ran
  rw [ran] at follows
  obtain ⟨-, retains⟩ := (ends_ok ran).mp (keeping.offer_ends (keepsTo call.request asked))
  obtain ⟨before, after, found, found', retains⟩ := retains record rfl
  refine ⟨before, after, found, ?_, keeping.retention ▸ retains⟩
  rw [← found', ids, ids, follows.directory]

/-- Whatever snapshots are offered to an archive one after the other, and whatever fails: a record that
is returned has a number above all that were given out before, and above all that are found in the
directory; snapshots are written no sooner after one another than the interval allows; and if the
directory is tidy and the requests keep to it, then what is found there once a record is returned are
as many of the highest numbers as are to be kept, of those that were found before and the new one. -/
theorem calls_lawful (archive : Archive) (disk : Disk) (requests : List Request) :
    (∀ call ∈ calls requests (archive, disk), ∀ record, call.answer = .ok (some record) →
      call.after.1.written = call.before.1.written ++ [record.id] ∧ call.before.1.lastId < record.id ∧
        ∀ ids, call.before.1.ids call.before.2 = .ok ids → ∀ id ∈ ids, id < record.id) ∧
    ((calls requests (archive, disk)).Pairwise fun earlier later => ∀ record,
      later.answer = .ok (some record) → earlier.after.1.lastId < record.id) ∧
    (archive.lastWritten.toList ++ ((calls requests (archive, disk)).filter Call.writes).map
      (·.request.now)).IsChain (IsSpaced archive.interval) ∧
    ∀ folder, 0 ≤ archive.lastId → Tidy archive.directory folder disk →
      (∀ request ∈ requests, request.KeepsTo archive.directory folder) →
      ∀ call ∈ calls requests (archive, disk), ∀ record, call.answer = .ok (some record) →
        ∃ before after, call.before.1.ids call.before.2 = .ok before ∧
          call.after.1.ids call.after.2 = .ok after ∧
          Retains archive.retention before record.id after := by
  refine ⟨fun call member record answered => new_of_answer member answered,
    pairwise_calls requests (archive, disk), isChain_calls requests (archive, disk), ?_⟩
  intro folder natural tidy keepsTo call member record answered
  exact retains_of_answer ⟨rfl, rfl, natural, tidy⟩ keepsTo member answered

end Calls

end Archive

/-! ### Snapshots beside others -/

namespace Sample

open Archive

/-- A disk with two snapshots, a file that has the name of a third one, and a link. -/
def shelves : Disk where
  home := ["work"]
  entries := [
    (["work", "snaps"], .dir),
    (["work", "snaps", "000003"], .dir),
    (["work", "snaps", "000007"], .dir),
    (["work", "snaps", "000009"], .file (.ofBytes []) Disk.newMode),
    (["work", "snaps", "latest"], .link "000007")]

def couple : Archive :=
  { directory := Path.ofText "snaps", retention := .int 2 }

/-- Four requests, the second of which comes too soon. -/
def repeated : List Request :=
  [0.0, 4.0, 12.0, 13.0].map fun now => { finish := fun _ => pure (), capture := halfway.capture, now }

theorem shelves_tidy : Tidy couple.directory ["work", "snaps"] shelves := by
  have opens : shelves.Opens couple.directory ["work", "snaps"] := snaps_opens rfl rfl
  -- The names of digits there are those of three places.
  have known : ∀ name entry, IsNumeral name → shelves.get? (["work", "snaps"] ++ [name]) = some entry →
      (∃ id, 0 ≤ id ∧ name = nameOf id) ∧ ∀ target, entry ≠ .link target := by
    intro name entry numeral stands
    have listed : name ∈ shelves.namesIn ["work", "snaps"] :=
      (Disk.mem_namesIn_iff_get? (opens.outside _ (by simp))).mpr (by rw [stands]; simp)
    rw [show shelves.namesIn ["work", "snaps"] = ["000003", "000007", "000009", "latest"] by decide]
      at listed
    simp only [mem_cons, not_mem_nil, or_false] at listed
    rcases listed with rfl | rfl | rfl | rfl
    · cases (show shelves.get? ["work", "snaps", "000003"] = some .dir by decide).symm.trans stands
      exact ⟨⟨3, by decide, by decide⟩, by simp⟩
    · cases (show shelves.get? ["work", "snaps", "000007"] = some .dir by decide).symm.trans stands
      exact ⟨⟨7, by decide, by decide⟩, by simp⟩
    · cases (show shelves.get? ["work", "snaps", "000009"] =
        some (.file (.ofBytes []) Disk.newMode) by decide).symm.trans stands
      exact ⟨⟨9, by decide, by decide⟩, by simp⟩
    · exact absurd (numeral.digits 'l' (by decide)) (by decide)
  constructor
  · exact Disk.isTree_of_entries (by decide)
  · unfold Disk.IsDistinct
    decide
  · exact .opened opens
  · exact fun name target numeral link => (known name _ numeral link).2 target rfl
  · exact fun name numeral dir => (known name _ numeral dir).1

theorem repeated_keepsTo : ∀ request ∈ repeated, request.KeepsTo couple.directory ["work", "snaps"] := by
  intro request member
  obtain ⟨now, -, rfl⟩ := mem_map.mp member
  exact ⟨halfway_inner, staysIn_pure⟩

/-- The first request is granted, the second comes too soon, and the third fails since a file has the
name of its snapshot. The fourth is granted, and then the two newest snapshots are left. -/
theorem calls_lawful_shelves :
    Tidy couple.directory ["work", "snaps"] shelves ∧
    ((calls repeated (couple, shelves)).map fun call => call.after.1.written) =
      [[8], [8], [8], [8, 10]] ∧
    ∃ call ∈ calls repeated (couple, shelves), ∃ record, call.answer = .ok (some record) ∧
      record.id = 10 ∧ call.before.1.lastId < 10 ∧ call.after.1.ids call.after.2 = .ok [8, 10] ∧
      ∃ before after, call.before.1.ids call.before.2 = .ok before ∧
        call.after.1.ids call.after.2 = .ok after ∧ Retains (.int 2) before record.id after := by
  have granted : ∃ call ∈ calls repeated (couple, shelves),
      call.after.1.ids call.after.2 = .ok [8, 10] ∧ Step.Outcome
        (fun answer _ => answer.map Record.id = some 10) (fun _ _ => False) (call.answer, ()) := by
    decide +kernel
  obtain ⟨call, member, found, outcome⟩ := granted
  refine ⟨shelves_tidy, by decide +kernel, call, member, ?_⟩
  obtain ⟨record, answered, same⟩ : ∃ record, call.answer = .ok (some record) ∧ record.id = 10 := by
    cases answer : call.answer with
    | error =>
      rw [answer] at outcome
      exact outcome.elim
    | ok answer =>
      rw [answer] at outcome
      obtain ⟨record, rfl, same⟩ := Option.map_eq_some_iff.mp outcome
      exact ⟨record, rfl, same⟩
  obtain ⟨new, -, -, retains⟩ := calls_lawful couple shelves repeated
  refine ⟨record, answered, same, same ▸ (new call member record answered).2.1, found, ?_⟩
  exact retains ["work", "snaps"] (by decide) shelves_tidy repeated_keepsTo call member record answered

def single : Disk where
  home := ["work"]
  entries := [(["work", "snaps"], .dir), (["work", "snaps", "000005"], .dir)]

/-- An archive that is found through a snapshot of its own, and keeps only one. -/
def passing : Archive :=
  { directory := Path.ofText "snaps/000005/..", retention := .int 1 }

/-- A disk with a link that has the name of a snapshot, and leads to where one will be. -/
def pointed : Disk where
  home := ["work"]
  entries := [(["work", "snaps"], .dir), (["work", "snaps", "000009"], .link "000001")]

/-- A run on a project with a file whose name leads out of a snapshot. -/
def outward : Progress where
  project := { project with files := [("../../000050/x", fileOf lines)] }

/-- Snapshots are not kept as they are to be where the way to them leads through one of them, where a
link has the name of one, or where the name of a file leads out of one. -/
theorem offer_elsewhere_loses :
    (∃ record state, (offer (fun _ => pure ()) halfway.capture 0.0).runOn (passing, single) =
      (.ok (some record), state) ∧ passing.ids single = .ok [5] ∧ state.1.ids state.2 = .ok [] ∧
      ¬ Retains passing.retention [5] record.id []) ∧
    (∃ record state, (offer (fun _ => pure ()) halfway.capture 0.0).runOn (archive, pointed) =
      (.ok (some record), state) ∧ archive.ids pointed = .ok [] ∧ state.1.ids state.2 = .ok [1, 9] ∧
      ¬ Retains archive.retention [] record.id [1, 9]) ∧
    ∃ record state, (offer (fun _ => pure ()) outward.capture 0.0).runOn (archive, disk) =
      (.ok (some record), state) ∧ archive.ids disk = .ok [] ∧ state.1.ids state.2 = .ok [1, 50] ∧
      ¬ Retains archive.retention [] record.id [1, 50] := by
  have loses : ∀ (id : Int) {archive disk} {progress : Progress} {before after : List Int},
      (offer (fun _ => pure ()) progress.capture 0.0).Ends
        (fun answer state => answer.map Record.id = some id ∧ archive.ids disk = .ok before ∧
          state.1.ids state.2 = .ok after ∧
          after.length ≠ allowance archive.retention (before.length + 1))
        (fun _ _ => False) (archive, disk) →
      ∃ record state, (offer (fun _ => pure ()) progress.capture 0.0).runOn (archive, disk) =
        (.ok (some record), state) ∧ archive.ids disk = .ok before ∧ state.1.ids state.2 = .ok after ∧
        ¬ Retains archive.retention before record.id after := by
    intro id archive disk progress before after ends
    obtain ⟨answer, state, ran, known, found, left, differs⟩ := ends.exists_ok
    obtain ⟨record, rfl, -⟩ := Option.map_eq_some_iff.mp known
    exact ⟨record, state, ran, found, left, fun retains => differs retains.count⟩
  refine ⟨loses 6 ?_, loses 1 ?_, loses 1 ?_⟩
  · decide +kernel
  · decide +kernel
  · decide +kernel

end Sample
end Whittle
