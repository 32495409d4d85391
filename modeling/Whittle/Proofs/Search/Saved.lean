import Whittle.Proofs.Stock

/-!
Which moment of a search a snapshot is of. A scene tells which snapshots had been written, so that
the first scene that knows of a snapshot tells where the search stood when it was taken
(`Standing.savedAs`). All through a search each snapshot in stock is of that moment: when a
candidate is tried all snapshots are known to the scenes, and the one that may follow is of
where the search then stands (`Session.guided_saved`).
-/

namespace Whittle

open List

variable {depot : Depot} {kept : List (Int × Progress)} {host : Host} {outfit : Outfit}
  {session after : Session}

/-- The progress at the first scene that knows of a snapshot. -/
def Standing.noted (standing : Standing) (id : Int) : Option Progress :=
  (standing.scenes.reverse.find? (·.written.contains id)).map Scene.progress

/-- Where a search stood when a snapshot was taken: as at the first scene that knows of it, or as at
the end. -/
def Standing.savedAs (standing : Standing) (id : Int) : Progress :=
  (standing.noted id).getD standing.progress

namespace Standing

variable {standing : Standing} {scene : Scene} {id : Int}

/-- What a new scene tells counts if no other did before. -/
theorem noted_cons (scene : Scene) (standing : Standing) (id : Int) :
    noted { standing with scenes := scene :: standing.scenes } id =
      (standing.noted id).or (if id ∈ scene.written then some scene.progress else none) := by
  simp only [noted, reverse_cons, find?_append, find?_singleton,
    contains_iff_mem]
  cases standing.scenes.reverse.find? (·.written.contains id) with
  | some first => rfl
  | none => split <;> rfl

theorem noted_eq_none (unknown : ∀ scene ∈ standing.scenes, id ∉ scene.written) :
    standing.noted id = none := by
  rw [noted, Option.map_eq_none_iff, find?_eq_none]
  intro scene member
  simpa using unknown scene (mem_reverse.mp member)

theorem noted_ne_none (member : scene ∈ standing.scenes) (known : id ∈ scene.written) :
    standing.noted id ≠ none := by
  intro none
  rw [noted, Option.map_eq_none_iff, find?_eq_none] at none
  exact none scene (mem_reverse.mpr member) (by simpa using known)

end Standing

namespace Session

/-! ### Snapshots and scenes -/

/-- A session with a stock of snapshots, all of larger projects if not of the accepted one. -/
structure Books (depot : Depot) (kept : List (Int × Progress)) (session : Session) : Prop where
  stocks : session.engine.Stocks depot kept
  known : ∀ scene ∈ session.scenes, ∀ id ∈ scene.written, id ∈ kept.map Prod.fst
  least : ∀ entry ∈ kept, session.size ≤ entry.2.project.size
  holds : depot.Holds session.engine.judge.hearings session.progress
  marked : session.progress.bookmark.Marks depot.grounds.names

/-- Each snapshot is of the moment at which it was taken. -/
structure Saved (depot : Depot) (kept : List (Int × Progress)) (session : Session) : Prop
    extends Books depot kept session where
  saved : ∀ entry ∈ kept, session.savedAs entry.1 = entry.2

/-- Each snapshot is of the first scene that knows of it. -/
structure Noted (depot : Depot) (kept : List (Int × Progress)) (session : Session) : Prop
    extends Books depot kept session where
  noted : ∀ entry ∈ kept, session.noted entry.1 = some entry.2

theorem Noted.saved (noted : session.Noted depot kept) : session.Saved depot kept :=
  { noted.toBooks with
    saved := fun entry member => by rw [Standing.savedAs, noted.noted entry member]; rfl }

/-- Once a scene tells where the search stands, all snapshots are known. -/
theorem Saved.noted (saved : session.Saved depot kept) (marked : session.IsMarked) :
    session.Noted depot kept := by
  refine { saved.toBooks with noted := fun entry member => ?_ }
  obtain ⟨scene, latest, -, written⟩ := marked
  have known : entry.1 ∈ scene.written := by
    rw [written, saved.stocks.written]
    exact mem_map_of_mem member
  obtain ⟨progress, found⟩ := Option.ne_none_iff_exists'.mp
    (Standing.noted_ne_none (mem_of_mem_head? latest) known)
  have same := saved.saved entry member
  rw [Standing.savedAs, found] at same
  rw [found]
  exact congrArg some same

theorem Saved.mark (saved : session.Saved depot kept) (phase : Phase) :
    Noted depot kept { session with scenes := session.scene phase :: session.scenes } where
  stocks := saved.stocks
  known := by
    refine forall_mem_cons.mpr ⟨fun id member => ?_, saved.known⟩
    rw [← saved.stocks.written]
    exact member
  least := saved.least
  holds := saved.holds
  marked := saved.marked
  noted entry member := by
    have same := saved.saved entry member
    have known : entry.1 ∈ (session.scene phase).written := by
      change entry.1 ∈ session.engine.archive.written
      rw [saved.stocks.written]
      exact mem_map_of_mem member
    rw [Standing.savedAs] at same
    rw [Standing.noted_cons, if_pos known]
    cases found : session.noted entry.1 with
    | some progress =>
      rw [found] at same
      exact congrArg some same
    | none =>
      rw [found] at same
      exact congrArg some same

/-- A step of the engine that leaves the stock and the judge alone changes nothing here. -/
theorem onEngine_ends_books {α : Type} {step : Step Engine α} (books : session.Books depot kept)
    (keeps : step.Keeps (Engine.Stocks depot kept))
    (judged : step.Keeps (·.judge = session.engine.judge)) :
    (onEngine step).Leaves
      (fun after => after.toStanding = session.toStanding ∧ after.Books depot kept) session := by
  have kept : ∀ engine : Engine, engine.Stocks depot kept ∧ engine.judge = session.engine.judge →
      Books depot kept { session with engine } := fun engine so =>
    { books with stocks := so.1, holds := so.2 ▸ books.holds }
  rw [Step.Leaves, onEngine, ends_within]
  exact ((keeps session.engine books.stocks).and (judged session.engine rfl)).mono
    fun engine so => ⟨rfl, kept engine so⟩

theorem Saved.of_same (saved : session.Saved depot kept)
    (same : after.toStanding = session.toStanding ∧ after.Books depot kept) :
    after.Saved depot kept :=
  { same.2 with saved := same.1 ▸ saved.saved }

theorem Noted.of_same (noted : session.Noted depot kept)
    (same : after.toStanding = session.toStanding ∧ after.Books depot kept) :
    after.Noted depot kept :=
  { same.2 with noted := same.1 ▸ noted.noted }

theorem log_ends_books (books : session.Books depot kept) (kind : String)
    (data : List (String × Value)) :
    (onEngine (Engine.log kind data)).Leaves
      (fun after => after.toStanding = session.toStanding ∧ after.Books depot kept) session :=
  onEngine_ends_books books (Engine.log_keeps_stocks kind data)
    (Engine.log_keeps (fun _ _ so => so) kind data)

/-- As a phase begins all snapshots come to be known. -/
theorem enter_ends_noted (saved : session.Saved depot kept) (phase : Phase)
    (data : List (String × Value)) :
    (enter phase data).Leaves (Noted depot kept) session := by
  have noted := saved.mark phase
  rw [Step.Leaves, enter, ends_bind, mark, ends_modify]
  exact (onEngine_ends_books noted.toBooks (Engine.enter_keeps_stocks phase data)
    (Engine.enter_keeps (fun _ _ _ so => so) phase data)).mono fun _ => noted.of_same

theorem quiet_noted : Quiet (Bookmark.Marks depot.grounds.names) (Noted depot kept) where
  enter phase data _ noted := enter_ends_noted noted.saved phase data
  log kind data _ noted := (log_ends_books noted.toBooks kind data).mono
    fun _ => noted.of_same
  note _ _ _ _ marked noted :=
    { stocks := { noted.stocks with houses := { noted.stocks.houses with } }
      known := noted.known
      least := noted.least
      holds := { noted.holds with }
      marked
      noted := noted.noted }

/-- A snapshot that is taken once all others are known is of where the search stands. -/
theorem keepSnapshot_ends_saved (nameable : Run.Nameable depot.grounds.root depot.grounds.names)
    (noted : session.Noted depot kept) :
    (Engine.keepSnapshot session.progress).Leaves
      (fun engine => ∃ kept, Saved depot kept { session with engine }) session.engine := by
  have recordable : session.progress.IsRecordable :=
    Depot.recordable noted.stocks.houses.fits nameable noted.holds.divides noted.marked
  have saved : ∀ engine : Engine, engine.Restocks depot kept session.progress ∧
      engine.judge = session.engine.judge → ∃ kept, Saved depot kept { session with engine } := by
    rintro engine ⟨⟨kept', rfl | ⟨id, rfl⟩, stocks⟩, judge⟩
    · exact ⟨kept', { noted.saved with stocks, holds := judge ▸ noted.holds }⟩
    · refine ⟨_, ⟨⟨stocks, fun scene member other known => ?_, ?_, judge ▸ noted.holds,
        noted.marked⟩, ?_⟩⟩
      · rw [map_append]
        exact mem_append_left _ (noted.known scene member other known)
      · intro entry member
        rcases mem_append.mp member with old | new
        · exact noted.least entry old
        · rw [mem_singleton.mp new]
          exact Nat.le_refl _
      · intro entry member
        rcases mem_append.mp member with old | new
        · exact noted.saved.saved entry old
        · rw [mem_singleton.mp new]
          -- the number is a new one, so that no scene knows of it
          have unknown : session.noted id = none := by
            refine Standing.noted_eq_none fun scene member known => ?_
            obtain ⟨entry, old, same⟩ := mem_map.mp (noted.known scene member id known)
            have order := (pairwise_append.mp stocks.houses.stocked.shelf.order).2.2 entry old
              (id, session.progress) (by simp)
            rw [same] at order
            exact Int.lt_irrefl _ order
          change (session.noted id).getD session.progress = session.progress
          rw [unknown]
          rfl
  have judged : (Engine.keepSnapshot session.progress).Keeps (·.judge = session.engine.judge) :=
    Engine.keepSnapshot_keeps (fun _ _ _ _ so => so) session.progress
  exact ((Engine.keepSnapshot_stocks noted.stocks recordable noted.holds noted.least).and
    (judged session.engine rfl)).mono saved

/-! ### Trials -/

/-- A session in which something was tried: only files of the grounds have changed, nothing larger was
accepted, and no hearing was lost. -/
structure Tries (grounds : Grounds) (before after : Session) : Prop where
  alters : grounds.toLayout.Alters before.engine.world.disk after.engine.world.disk
  smaller : after.size ≤ before.size
  scenes : after.scenes = before.scenes
  archive : after.engine.archive = before.engine.archive
  journal : after.engine.journal = before.engine.journal
  distinct : after.engine.world.disk.IsDistinct
  heard : before.engine.judge.hearings <:+ after.engine.judge.hearings

end Session

theorem Host.IsStill.undisturbed (still : host.IsStill) (layout : Layout)
    (drift : layout.Drift) (driver : String) : layout.Undisturbed drift host driver {} :=
  .of_still still.disk layout drift driver

namespace Session

theorem trial_tries {grounds : Grounds} (still : host.SparesDisk)
    (writable : grounds.toLayout.Writable) (candidate : Candidate)
    (faithful : session.Faithful grounds outfit) (distinct : session.engine.world.disk.IsDistinct) :
    (trial host candidate).Leaves (Tries grounds session) session := by
  let Orderly := Bench.Holds session.worktree.root (fun _ => True) fun judge disk =>
    disk.IsDistinct ∧ session.engine.judge.hearings <:+ judge.hearings
  have tries : ∀ bench : Bench, grounds.toLayout.Alters session.bench.world.disk bench.world.disk →
      bench.project.size ≤ session.size → Orderly bench →
      Tries grounds session (session.withBench bench) := fun bench alters smaller orderly =>
    ⟨alters, smaller, rfl, rfl, rfl, orderly.site.disk.1, orderly.site.disk.2⟩
  have keeps : (Trial.run host session.engine.driver {} candidate).Keeps Orderly := by
    refine Trial.run_keeps (fun _ name wanted _ disk so => ?_) (fun _ _ so => ⟨so, fun hearing =>
      ⟨so.1, so.2.trans (suffix_cons hearing _)⟩⟩) still candidate
    exact ((Worktree.confined_putFile Disk.isLasting_isDistinct _ name wanted).keeps disk so.1).mono
      fun _ distinct => ⟨distinct, so.2⟩
  have begins : Orderly session.bench :=
    ⟨⟨⟨distinct, suffix_rfl⟩, rfl, fun _ _ => trivial⟩, faithful.settled.proper, fun _ _ => trivial⟩
  rw [Step.Leaves, trial, ends_get_bind]
  rw [ends_bind, onBench, ends_within]
  refine ((Trial.run_ends candidate (.of_still still _ (.files grounds.toLayout) _)
    faithful.settled).and (keeps _ begins)).imp ?_ ?_
  · rintro trial bench ⟨⟨⟨-, concludes⟩, -⟩, orderly⟩
    have tried : Tries grounds session (session.withBench bench) := by
      split at concludes
      · refine tries bench concludes.drifts ?_ orderly
        have smaller := concludes.smaller
        rw [concludes.sizeBefore, concludes.sizeAfter] at smaller
        exact Int.ofNat_le.mp (Int.le_of_lt smaller)
      · have returns := concludes.1 writable
        refine tries bench returns.drifts ?_ orderly
        rw [returns.project]
        exact Nat.le_refl _
    rw [ends_get_bind, ends_ite]
    exact ⟨fun _ => tried, fun _ => tried⟩
  · rintro failure bench ⟨fails, orderly⟩
    obtain ⟨returns, -⟩ := fails.1 writable
    refine tries bench returns.drifts ?_ orderly
    rw [returns.project]
    exact Nat.le_refl _

theorem steady_develops {first : Project} :
    Steady host fun session => first.Develops host.parsers session.progress.project where
  enter phase _ := Step.Keeps.bind (keeps_modify fun _ so => so) fun _ =>
    keeps_within _ fun _ _ so => so
  log _ _ := keeps_within _ fun _ _ so => so
  note _ _ _ _ _ so := so
  snapshot session so :=
    (keeps_within _ fun _ _ so => so : (onEngine _).Keeps fun session =>
      first.Develops host.parsers session.progress.project) session so
  trial candidate := by
    refine Step.keeps_get.bind fun session => ?_
    refine Step.Keeps.bind ((Trial.run_keeps_developing candidate).within (fun _ so => so)
      fun _ _ _ so => so) fun _ => ?_
    exact Step.keeps_get.bind fun _ => (keeps_throw _).ite (keeps_pure _)

/-- A session on the grounds of a depot: the disk holds the accepted project, which has come of the
first. -/
def Sound (depot : Depot) (outfit : Outfit) (session : Session) : Prop :=
  (session.toStanding.OnCourse depot.grounds.root depot.grounds.names [] ∧
    session.Faithful depot.grounds outfit) ∧
  depot.first.Develops depot.parsers session.progress.project

theorem Sound.holds (sound : session.Sound depot outfit) :
    depot.Holds session.engine.judge.hearings session.progress where
  divides := sound.1.1.course.divides _ mem_cons_self
  develops := sound.2
  heard := by
    obtain ⟨hearing, found, tells⟩ := sound.1.2.upholds.heard
    have reproduces := find?_some found
    exact ⟨hearing, mem_of_find?_eq_some found, reproduces, tells⟩

theorem guided_sound (still : host.IsStill) (writable : depot.grounds.toLayout.Writable)
    (parsers : depot.parsers = host.parsers) :
    Guided host (fun target => ∀ path ∈ target, path ∈ depot.grounds.names)
      (fun project candidate =>
        candidate.Leaves project ∧ candidate.bookmark.Marks depot.grounds.names)
      (Sound depot outfit)
      (fun trial session => ((trial.candidate.bookmark.Marks depot.grounds.names ∧
        session.toStanding.OnCourse depot.grounds.root depot.grounds.names []) ∧
        session.Faithful depot.grounds outfit) ∧
        depot.first.Develops depot.parsers session.progress.project)
      fun _ => Sound depot outfit := by
  have undisturbed := still.undisturbed depot.grounds.toLayout depot.grounds.drift outfit.driver
  unfold Sound
  rw [parsers]
  exact (guided_course.also (steady_faithful undisturbed writable)).also steady_develops

theorem Noted.of_tries (noted : session.Noted depot kept)
    (before : session.Sound depot outfit) (sound : after.Sound depot outfit)
    (tries : Tries depot.grounds session after) : after.Noted depot kept := by
  have fits := before.1.2.upholds.fits.layout
  have ways := (tries.alters.keepsWays fits).without depot.grounds.margin
  refine { stocks := ⟨⟨sound.1.2.upholds.fits, ?_, ?_⟩, ?_, ?_, noted.stocks.sizes⟩, known := ?_,
           least := ?_, holds := sound.holds, marked := sound.1.1.marked, noted := ?_ }
  · rw [tries.archive]
    exact noted.stocks.houses.stocked.alters fits tries.alters sound.1.2.upholds.fits.layout
      tries.distinct
  · intro journal same
    obtain ⟨place, reaches, aside⟩ :=
      noted.stocks.houses.logs journal (tries.journal ▸ same)
    exact ⟨place, reaches.mono ways, aside⟩
  · rw [tries.archive]
    exact noted.stocks.written
  · exact fun entry member => (noted.stocks.held entry member).mono tries.heard.subset
  · rw [tries.scenes]
    exact noted.known
  · exact fun entry member => Nat.le_trans tries.smaller (noted.least entry member)
  · intro entry member
    rw [Standing.noted, tries.scenes]
    exact noted.noted entry member

/-! ### Searches -/

/-- All through a search each snapshot in stock is of the moment at which it was taken. -/
theorem guided_saved (still : host.IsStill) (writable : depot.grounds.toLayout.Writable)
    (parsers : depot.parsers = host.parsers)
    (nameable : Run.Nameable depot.grounds.root depot.grounds.names) :
    Guided host (fun target => ∀ path ∈ target, path ∈ depot.grounds.names)
      (fun project candidate =>
        candidate.Leaves project ∧ candidate.bookmark.Marks depot.grounds.names)
      (fun session => session.Sound depot outfit ∧ ∃ kept, session.Saved depot kept)
      (fun trial session => (((trial.candidate.bookmark.Marks depot.grounds.names ∧
        session.toStanding.OnCourse depot.grounds.root depot.grounds.names []) ∧
        session.Faithful depot.grounds outfit) ∧
        depot.first.Develops depot.parsers session.progress.project) ∧
        ∃ kept, session.Noted depot kept)
      fun _ session => session.Sound depot outfit ∧ ∃ kept, session.Saved depot kept := by
  have base : Guided host _ _ (Sound depot outfit) _ fun _ => Sound depot outfit :=
    guided_sound still writable parsers
  exact {
    target := fun session path so => base.target session path so.1
    offers := fun session pass path index position so known => by
      obtain ⟨offers, fails⟩ := base.offers session pass path index position so.1 known
      exact ⟨offers, fun failure failed => ⟨fails failure failed, so.2⟩⟩
    unplaced := fun session resume path failure so failed =>
      ⟨base.unplaced session resume path failure so.1 failed, so.2⟩
    enter := fun phase data session other so => by
      obtain ⟨sound, kept, saved⟩ := so
      exact ((base.enter phase data session other sound).and (enter_ends_noted saved phase data)).mono
        fun _ so => ⟨so.1, kept, so.2.saved⟩
    log := fun kind data session so => by
      obtain ⟨sound, kept, saved⟩ := so
      exact ((base.log kind data session sound).and (log_ends_books saved.toBooks kind data)).mono
        fun _ so => ⟨so.1, kept, saved.of_same so.2⟩
    trial := fun candidate session offers marked so => by
      obtain ⟨sound, kept, saved⟩ := so
      have noted := saved.noted marked
      refine ((base.trial candidate session offers marked sound).and (trial_tries still.disk writable
        candidate sound.1.2 noted.stocks.houses.stocked.distinct)).imp ?_ ?_
      · rintro trial after ⟨so, tries⟩
        exact ⟨so, kept, noted.of_tries sound ⟨⟨so.1.1.2, so.1.2⟩, so.2⟩ tries⟩
      · rintro failure after ⟨so, tries⟩
        exact ⟨so, kept, (noted.of_tries sound so tries).saved⟩
    accept := fun trial session committed so => by
      obtain ⟨tried, kept, noted⟩ := so
      exact (base.accept trial session committed tried).and
        (quiet_noted.accept tried.1.1.1 (fun _ noted => ⟨kept, noted.saved⟩)
          (fun _ noted => (ends_within _ _ _).mpr (keepSnapshot_ends_saved nameable noted)) noted)
    reject := fun trial session rejected so => by
      obtain ⟨tried, kept, noted⟩ := so
      exact ((base.reject trial session rejected tried).and
        (quiet_noted.reject tried.1.1.1 session noted)).imp
          (fun _ _ so => ⟨so.1, kept, so.2.saved⟩) fun _ _ so => ⟨so.1, kept, so.2.saved⟩ }

end Session

namespace Engine

variable {engine : Engine} {progress : Progress}

/-- How a search leaves an engine: with a stock of snapshots, each of the moment at which it was
taken. -/
def Saved (depot : Depot) (engine : Engine) : Prop :=
  ∃ standing kept, engine.standing = some standing ∧ engine.Stocks depot kept ∧
    ∀ entry ∈ kept, standing.savedAs entry.1 = entry.2

theorem fail_keeps_saved (failure : Failure) (title : String) :
    (fail failure title).Keeps (Saved depot) := by
  rintro engine ⟨standing, kept, left, stocks, saved⟩
  exact ((fail_keeps enter_keeps_stocks failure title engine stocks).and
    (fail_keeps_standing failure title engine left)).mono
      fun _ so => ⟨standing, kept, so.2, so.1, saved⟩

theorem saved_of_session (saved : ∃ kept, session.Saved depot kept) :
    Saved depot session.leaves := by
  obtain ⟨kept, saved⟩ := saved
  exact ⟨session.toStanding, kept, rfl,
    { saved.stocks with houses := { saved.stocks.houses with } }, saved.saved⟩

/-- However a search ends, each snapshot in stock is of the moment at which it was taken. -/
theorem search_ends_saved (still : host.IsStill) (writable : depot.grounds.toLayout.Writable)
    (parsers : depot.parsers = host.parsers)
    (nameable : Run.Nameable depot.grounds.root depot.grounds.names)
    (begins : engine.Begins depot.grounds outfit progress.project)
    (stocks : engine.Stocks depot kept) (all : ∀ entry ∈ kept, entry.2 = progress)
    (holds : depot.Holds engine.judge.hearings progress)
    (marked : progress.bookmark.Marks depot.grounds.names) :
    (search host progress).Leaves (Saved depot) engine := by
  let session := engine.begins progress
  have sound : session.Sound depot outfit :=
    ⟨⟨⟨.single holds.divides (nil_subset _), marked⟩, .begins begins.toUpholds begins.untold⟩,
      holds.develops⟩
  have saved : session.Saved depot kept := by
    refine ⟨⟨stocks, fun _ member => (by cases member), fun entry member => ?_, holds, marked⟩,
      fun entry member => (all entry member).symm⟩
    rw [all entry member]
    exact Nat.le_refl _
  have guided : Session.Guided host _ _ (fun session : Session => session.Sound depot outfit ∧
      ∃ kept, session.Saved depot kept) _ fun _ session => session.Sound depot outfit ∧
      ∃ kept, session.Saved depot kept := Session.guided_saved still writable parsers nameable
  refine search_ends_of (guided.rounds _ _ ⟨sound, kept, saved⟩)
    (fun _ session so => saved_of_session so.2) ?_ fail_keeps_saved
  -- a session that ends takes a last snapshot, if there is need of one
  rintro phase session ⟨-, kept, saved⟩
  have noted := saved.mark phase
  have entered : ∀ data, (enter phase data).Keeps fun engine => ∃ kept,
      Session.Saved depot kept { session.closed phase with engine } := by
    rintro data engine ⟨kept, saved⟩
    exact ((ends_within _ _ _).mp (Session.onEngine_ends_books saved.toBooks
      (enter_keeps_stocks phase data) (enter_keeps (fun _ _ _ so => so) phase data))).mono
        fun _ same => ⟨kept, saved.of_same same⟩
  exact (finish_ends_of (Session.keepSnapshot_ends_saved nameable noted) ⟨kept, noted.saved⟩
    (fun _ => entered _) _).imp (fun _ _ ended => saved_of_session ended.1) fun _ _ => saved_of_session

end Engine
end Whittle
