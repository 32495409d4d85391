import Whittle.Proofs.Accounts
import Whittle.Proofs.Resumption

/-!
What a run that goes on from a snapshot tells of the reduction before it. A search counts on from what
the snapshot told, and keeps the size at first (`Run.Recorded.recalls`). So a run that has come to its
search tells the history of the whole reduction. One that is interrupted before, while the snapshot is
checked, tells nothing of it: it has counted nothing, and the size at first is the one of the snapshot
(`Run.resume_recalls`).
-/

namespace Whittle

/-- Counters that have gone on from others. -/
structure Counters.Extends (old counters : Counters) : Prop where
  accepted : old.accepted ≤ counters.accepted
  rejected : old.rejected ≤ counters.rejected
  inconclusive : old.inconclusive ≤ counters.inconclusive
  parseFailures : old.parseFailures ≤ counters.parseFailures

/-- Progress of a reduction that began with a project of some size, and has counted on from
something. -/
structure Progress.Recalls (size : Nat) (old : Counters) (progress : Progress) : Prop where
  initial : progress.counters.initialSize = size
  counted : old.Extends progress.counters
  fair : progress.IsFair

theorem Progress.isLasting_recalls (size : Nat) (old : Counters) : IsLasting (Recalls size old) where
  shrinks so proper smaller counted :=
    ⟨counted ▸ so.initial, counted ▸ so.counted,
      isLasting_isFair.shrinks so.fair proper smaller counted⟩
  accepts so proper smaller counted := by
    refine ⟨counted ▸ so.initial, ?_, isLasting_isFair.accepts so.fair proper smaller counted⟩
    rw [counted]
    exact { so.counted with accepted := so.counted.accepted.trans (Int.le_add_of_nonneg_right (by simp)) }
  rejects trial so proper same counted := by
    have more : ∀ (count : Int) (one : Bool), count ≤ count + if one then 1 else 0 := by
      intro count one
      split <;> omega
    refine ⟨counted ▸ so.initial, ?_, isLasting_isFair.rejects trial so.fair proper same counted⟩
    rw [counted]
    exact {
      accepted := so.counted.accepted
      rejected := so.counted.rejected.trans (more _ true)
      inconclusive := so.counted.inconclusive.trans (more _ _)
      parseFailures := so.counted.parseFailures.trans (more _ _) }

theorem Engine.search_tells (host : Host) (progress : Progress) (engine : Engine) :
    (search host progress).Ends (fun result _ => result.initialSize = result.counters.initialSize)
      (fun _ _ => True) engine := by
  refine search_ends_of (Step.ends_const.mpr trivial : Step.Leaves _ (fun _ => True) _)
    (fun _ _ _ => trivial) (fun phase session _ => ?_) fun _ _ _ _ => Step.ends_const.mpr trivial
  refine (finish_goes _ _ _ _).imp ?_ fun _ _ _ => trivial
  rintro result after ⟨-, -, -, counters, initial⟩
  rw [initial, counters]

namespace Run

variable {host : Host} {engine : Engine} {run : Run} {size : Nat} {progress was : Progress}
  {point : Checkpoint} {archive : Archive} {id : Int}

/-- A run that has come to its search and ends tells the size at first as it is counted. -/
theorem perform_tells (host : Host) (run : Run) (engine : Engine) :
    (run.perform host).Ends (fun result after => after.standing = engine.standing ∨
      result.initialSize = result.counters.initialSize) (fun _ _ => True) engine :=
  run.perform_opens engine (fun _ _ ceases => .inl ceases.standing) (fun _ _ _ => trivial)
    fun progress begun _ => (Engine.search_tells host progress begun).imp (fun _ _ => .inr) fun _ _ => id

/-- Where runs have stood of which the first began with a project of some size, and each other one
went on from a snapshot of where one before it had stood. -/
inductive Recorded (size : Nat) : Progress → Prop where
  | begun {host : Host} {engine : Engine} {root : Path} {files : List Value} {progress : Progress}
      (yields : (fresh root files).Yields host engine progress)
      (measured : progress.project.size = size) : Recorded size progress
  | resumed {host : Host} {engine : Engine} {point : Checkpoint} {archive : Archive} {id : Int}
      {was progress : Progress} (before : Recorded size was)
      (loaded : (resumed.begun engine).archive.resume (resumed.begun engine).world.disk =
        .ok (point, archive))
      (genuine : point.Restores id was) (yields : resumed.Yields host engine progress) :
      Recorded size progress
  | stood {host : Host} {engine after : Engine} {run : Run} {result : Except Failure Result}
      {standing : Standing} {progress : Progress} (idle : engine.standing = none)
      (begins : ∀ first, run.Yields host engine first → Recorded size first)
      (ran : (run.perform host).runOn engine = (result, after)) (left : after.standing = some standing)
      (member : progress ∈ standing.states) : Recorded size progress

theorem Yields.recalls (yields : Run.resumed.Yields host engine progress)
    (loaded : (Run.resumed.begun engine).archive.resume (Run.resumed.begun engine).world.disk =
      .ok (point, archive))
    (genuine : point.Restores id was) (proper : Listing.IsProper was.project.files)
    (recalls : was.Recalls size {}) : progress.Recalls size was.counters := by
  have agrees := yields.agrees loaded genuine proper
  have accepted : 0 ≤ was.counters.accepted := recalls.counted.accepted
  have fair := recalls.fair
  have initial := recalls.initial
  refine ⟨?_, ⟨agrees.accepted.ge, agrees.rejected.ge, agrees.inconclusive.ge, agrees.parseFailures.ge⟩,
    yields.isFair loaded genuine proper (.inl fair)⟩
  rw [agrees.initialSize]
  unfold Progress.IsFair at fair
  dsimp only
  split <;> omega

theorem Recorded.recalls (recorded : Recorded size progress) :
    progress.project.files.IsProper ∧ progress.Recalls size {} := by
  induction recorded with
  | begun yields measured =>
    refine ⟨yields.isProper, ?_⟩
    cases yields
    exact ⟨congrArg Nat.cast measured, ⟨le_rfl, le_rfl, le_rfl, le_rfl⟩, by simp [Progress.IsFair]⟩
  | resumed before loaded genuine yields ih =>
    obtain ⟨proper, ih⟩ := ih
    obtain ⟨initial, counted, fair⟩ := yields.recalls loaded genuine proper ih
    exact ⟨yields.isProper, initial, ⟨ih.counted.accepted.trans counted.accepted,
      ih.counted.rejected.trans counted.rejected, ih.counted.inconclusive.trans counted.inconclusive,
      ih.counted.parseFailures.trans counted.parseFailures⟩, fair⟩
  | @stood _ _ _ _ result standing progress idle begins ran left member ih =>
    have ends := perform_always (Progress.isLasting_recalls size {}) idle fun progress yields =>
      (ih progress yields).2
    rw [Step.Ends, ran] at ends
    cases result with
    | error failure => exact ends standing left progress member
    | ok result =>
      obtain ⟨-, none⟩ | ⟨other, left', -, always⟩ := ends
      · cases left.symm.trans none
      · cases left.symm.trans left'
        exact always progress member

/-- A run that goes on from a snapshot of a reduction, and has come to its search, tells at its end the
size that the reduction began with, and has counted on from the snapshot. One that ends without a search
was interrupted, and tells the size of the snapshot, and that nothing was counted. -/
theorem resume_recalls (recorded : Recorded size was) (idle : engine.standing = none)
    (loaded : (Run.resumed.begun engine).archive.resume (Run.resumed.begun engine).world.disk =
      .ok (point, archive))
    (genuine : point.Restores id was) :
    (Engine.resume host).Ends
      (fun result after =>
        (after.standing ≠ none → result.initialSize = size ∧ was.counters.Extends result.counters) ∧
        (after.standing = none → result.status = .interrupted ∧
          result.initialSize = was.project.size ∧ ∃ now, result.counters = { startedAt := now }))
      (fun _ _ => True) engine := by
  obtain ⟨proper, recalls⟩ := recorded.recalls
  have always : (Run.resumed.perform host).Ends _ _ engine :=
    perform_always (Progress.isLasting_recalls size was.counters) idle fun progress yields =>
      yields.recalls loaded genuine proper recalls
  refine (always.and (perform_tells host .resumed engine)).imp ?_ fun _ _ _ => trivial
  rintro result after ⟨⟨ceases, none⟩ | ⟨standing, left, counters, always⟩, tells⟩
  · refine ⟨fun searched => absurd none searched, fun _ => ⟨ceases.status, ?_, ceases.counted⟩⟩
    rw [ceases.size, ceases.takes.size_eq loaded genuine proper]
  · have now := (always _ List.mem_cons_self).2
    have tells : result.initialSize = result.counters.initialSize :=
      tells.resolve_left fun same => by cases left.symm.trans (same.trans idle)
    refine ⟨fun _ => ?_, fun none => by cases left.symm.trans none⟩
    rw [tells, counters]
    exact ⟨now.initial, now.counted⟩

end Run

theorem Standing.savedAs_mem_states (standing : Standing) (id : Int) :
    standing.savedAs id ∈ standing.states := by
  unfold savedAs
  cases noted : standing.noted id with
  | none => exact List.mem_cons_self
  | some progress =>
    obtain ⟨scene, found, rfl⟩ := Option.map_eq_some_iff.mp noted
    have member := List.mem_reverse.mp (List.mem_of_find?_eq_some found)
    exact List.mem_cons_of_mem _ (List.mem_map_of_mem member)

namespace Sample

/-- Where the search of the small project begins it has four bytes. -/
theorem recorded_begun {progress : Progress}
    (yields : (Run.fresh root [.text "a"]).Yields picky eager progress) : Run.Recorded 4 progress := by
  refine .begun yields ?_
  cases yields with
  | fresh chosen loaded =>
    cases eager_chosen.symm.trans chosen
    have size : (Project.load picky.parsers ((Run.fresh root [.text "a"]).begun eager).registry
        ((Run.fresh root [.text "a"]).begun eager).world.disk root ["a"]).toOption.map Project.size =
        some 4 := by
      decide +kernel
    rw [loaded] at size
    exact Option.some.inj size

/-- The small project is reduced, and a run goes on from its newest snapshot. -/
theorem resume_recalls_lines : ∃ disk was, Run.Recorded 4 was ∧
    (Engine.resume picky).Ends
      (fun result after =>
        (after.standing ≠ none → result.initialSize = 4 ∧ was.counters.Extends result.counters) ∧
        (after.standing = none → result.status = .interrupted ∧
          result.initialSize = was.project.size ∧ ∃ now, result.counters = { startedAt := now }))
      (fun _ _ => True) (eagerOn disk) := by
  have ends : (Engine.start picky root [.text "a"]).Ends
      (fun _ after => after.archive.written = [1, 2] ∧ after.archive.directory = Path.ofText "snaps" ∧
        after.standing.isSome = true) (fun _ _ => False) eager := by
    decide +kernel
  obtain ⟨result, after, ran, written, directory, searched⟩ := ends.exists_ok
  obtain ⟨standing, left⟩ := Option.isSome_iff_exists.mp searched
  have still : picky.IsStill := ⟨fun _ _ _ _ => rfl, fun _ _ _ _ _ failed => by cases failed⟩
  have closes := Step.ends_const.mp (Run.start_closes still eager_equips)
  rw [ran] at closes
  obtain none | ⟨first, kept, -, stocks, saved⟩ := closes
  · cases written.symm.trans none
  obtain ⟨entry, last⟩ : ∃ entry, kept.getLast? = some entry := by
    refine ⟨_, List.getLast?_eq_some_getLast ?_⟩
    rintro rfl
    cases written.symm.trans stocks.written
  have member := List.mem_of_getLast? last
  have stocked := stocks.houses.stocked
  have shelf : Archive.Shelf (eagerOn after.world.disk).archive.directory _ kept after.world.disk :=
    directory ▸ stocked.shelf
  obtain ⟨point, later, resumed, restores⟩ := shelf.exists_resume last stocked.tree stocked.distinct
    stocked.linkless_inside
  have stood : entry.2 ∈ standing.states := by
    rw [← saved entry member, Engine.savedAs, left]
    exact standing.savedAs_mem_states entry.1
  have recorded := Run.Recorded.stood rfl (fun first => recorded_begun) ran left stood
  exact ⟨after.world.disk, entry.2, recorded, Run.resume_recalls recorded rfl resumed restores⟩

/-- An engine whose archive has a snapshot of no files, which tells that a candidate was accepted and
that there were four bytes at first. -/
def emptied : Engine :=
  { engine with
    world :=
      { disk :=
          { home := ["work"]
            entries := [(["work", "snaps"], .dir), (["work", "snaps", "000001"], .dir),
              (["work", "snaps", "000001", "meta.json"], .file (.ofBytes (Bytes.ofText
                ("\x7b\"id\":1,\"timestamp\":0,\"root\":\"project\",\"size\":0,\"files\":\x7b\x7d," ++
                  "\"counters\":\x7b\"accepted\":1,\"initial_size\":4\x7d\x7d"))) Disk.newMode)] } } }

def stopping : Host :=
  { host with launch := fun _ _ _ disk => { disk, start := .running true {} } }

/-- A run that goes on from that snapshot and is interrupted while it is checked tells that there was no
byte at first, and that no candidate was accepted. -/
theorem resume_stopping_forgets :
    (∃ record counters, Archive.readRecord emptied.world.disk (Path.ofText "snaps/000001") = .ok record ∧
      Counters.ofValue (.map record.counters) 0.0 = .ok counters ∧ counters.accepted = 1 ∧
      counters.initialSize = 4) ∧
    ∃ result after, (Engine.resume stopping).runOn emptied = (.ok result, after) ∧
      result.status = .interrupted ∧ result.initialSize = 0 ∧ result.counters.accepted = 0 := by
  have tells : (Step.lift (do
      let record ← Archive.readRecord emptied.world.disk (Path.ofText "snaps/000001")
      (Counters.ofValue (.map record.counters) 0.0).mapError Failure.value)).Ends
      (fun counters _ => counters.accepted = 1 ∧ counters.initialSize = 4) (fun _ _ => False) () := by
    decide +kernel
  have forgets : (Engine.resume stopping).Ends (fun result _ => result.status = .interrupted ∧
      result.initialSize = 0 ∧ result.counters.accepted = 0) (fun _ _ => False) emptied := by
    decide +kernel
  obtain ⟨counters, _, told, counted⟩ := tells.exists_ok
  obtain ⟨record, read, told⟩ := bind_eq_ok_iff.mp (Step.runOn_lift_eq_ok_iff.mp told).1
  exact ⟨⟨record, counters, read, mapError_eq_ok_iff.mp told, counted⟩, forgets.exists_ok⟩

end Sample
end Whittle
