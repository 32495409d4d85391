import Mathlib.Data.List.Perm.Subperm
import Whittle.Proofs.Run

/-!
What becomes of the files of a project in the course of a search. Each file that was there at first
is tracked or was removed, and never both (`Project.Divides`). A commit removes more files, but
not the last (`Project.Divides.commit`), since no pass proposes to remove them all
(`Pass.leaves_of_mem`). Hence the projects that a search accepts, one after the other, all
divide the same files, and what was removed stays so (`Engine.search_course`).
-/

namespace Whittle

open List

variable {root : Path} {initial origin : List String} {project : Project} {candidate : Candidate}
  {host : Host}

/-! ### Projects -/

/-- Each of some names below a root is tracked by a project or was removed from it, and never both;
at least one is tracked. -/
structure Project.Divides (root : Path) (initial : List String) (project : Project) : Prop where
  root : project.root = root
  proper : project.files.IsProper
  apart : ∀ name, project.tracks name = true → name ∉ project.removed
  all : ∀ name, name ∈ initial ↔ project.tracks name = true ∨ name ∈ project.removed
  ordered : project.removed.Pairwise (· < ·)
  some : ∃ name, project.tracks name = true

def Candidate.Leaves (candidate : Candidate) (project : Project) : Prop :=
  ∃ name, project.tracks name = true ∧ name ∉ candidate.removed

namespace Project

variable {changed : Project} {parsers : Parsers} {buffers : Buffers} {name : String}

theorem mem_paths_iff : name ∈ project.paths ↔ project.tracks name = true := by
  rw [paths, mem_sortNames, Listing.mem_names_iff, tracks, Listing.has]

theorem tracks_iff_of_apply (applied : project.apply parsers candidate = .ok buffers)
    (becomes : project.Becomes (Listing.overlay buffers.contents (project.contents.get?)) changed) :
    changed.tracks name = true ↔ project.tracks name = true ∧ name ∉ candidate.removed := by
  have turns := turns_of_apply applied
  rw [tracks_eq, tracks_eq, becomes.contents]
  by_cases gone : name ∈ candidate.removed
  · simp [turns.removed name gone, gone]
  · rw [and_iff_left gone]
    by_cases own : candidate.path = .some name → candidate.splices = []
    · rw [turns.kept name gone own]
    · push Not at own
      obtain ⟨data, changed, had, -, has⟩ := turns.spliced name gone own.1 own.2
      rw [had, has]
      rfl

theorem pairwise_removed_of_commit (committed : project.commit buffers = (.ok (), changed)) :
    changed.removed.Pairwise (· < ·) := by
  unfold commit at committed
  split at committed
  · cases committed
    exact pairwise_sortUnique _
  · next failed => exact absurd committed (failed _)

theorem Divides.commit (divides : project.Divides root initial)
    (applied : project.apply parsers candidate = .ok buffers) (leaves : candidate.Leaves project) :
    ∃ changed, project.commit buffers = (.ok (), changed) ∧ changed.Divides root initial ∧
      project.removed ⊆ changed.removed := by
  obtain ⟨changed, committed, becomes, -, removed⟩ :=
    commit_of_suits divides.proper (suits_of_apply applied)
  have tracked : ∀ name, changed.tracks name = true ↔
      project.tracks name = true ∧ name ∉ candidate.removed :=
    fun name => tracks_iff_of_apply applied becomes
  have removed : ∀ name, name ∈ changed.removed ↔
      name ∈ project.removed ∨ name ∈ candidate.removed :=
    fun name => (removed name).trans (or_congr_right (gone_iff_of_apply applied))
  have own : ∀ name ∈ candidate.removed, project.tracks name = true := fun name gone =>
    (suits_of_apply applied).tracked name (Listing.mem_names_iff.mpr (by
      rw [(gone_iff_of_apply applied).mpr gone]
      rfl))
  refine ⟨changed, committed, ⟨becomes.root.trans divides.root, becomes.proper, ?_, ?_,
    pairwise_removed_of_commit committed, ?_⟩, fun name gone => (removed name).mpr (.inl gone)⟩
  · intro name is gone
    obtain ⟨was, stays⟩ := (tracked name).mp is
    exact ((removed name).mp gone).elim (divides.apart name was) stays
  · intro name
    rw [divides.all, tracked, removed]
    by_cases gone : name ∈ candidate.removed
    · simp [gone, own name gone]
    · simp [gone]
  · obtain ⟨name, is, stays⟩ := leaves
    exact ⟨name, (tracked name).mpr ⟨is, stays⟩⟩

/-- Projects, the latest first, that divide the same files, and from which more and more of them
were removed, those of `origin` from the beginning. -/
structure Course (root : Path) (initial origin : List String) (projects : List Project) : Prop where
  divides : ∀ project ∈ projects, project.Divides root initial
  grows : projects.Pairwise fun later earlier => earlier.removed ⊆ later.removed
  origin : ∀ project ∈ projects, origin ⊆ project.removed

namespace Course

variable {projects rest : List Project}

theorem nil : Course root initial origin [] :=
  ⟨by simp, .nil, by simp⟩

theorem single (divides : project.Divides root initial) (begins : origin ⊆ project.removed) :
    Course root initial origin [project] :=
  ⟨by simpa using divides, pairwise_singleton _ _, by simpa using begins⟩

theorem sublist (course : Course root initial origin projects) (part : rest.Sublist projects) :
    Course root initial origin rest :=
  ⟨fun project member => course.divides project (part.subset member), course.grows.sublist part,
    fun project member => course.origin project (part.subset member)⟩

theorem mono {earlier : List String} (course : Course root initial origin projects)
    (less : earlier ⊆ origin) : Course root initial earlier projects :=
  { course with origin := fun project member => List.Subset.trans less (course.origin project member) }

theorem push (course : Course root initial origin (project :: rest))
    (divides : changed.Divides root initial) (more : project.removed ⊆ changed.removed) :
    Course root initial origin (changed :: project :: rest) where
  divides := forall_mem_cons.mpr ⟨divides, course.divides⟩
  grows := by
    refine pairwise_cons.mpr ⟨forall_mem_cons.mpr ⟨more, fun earlier member => ?_⟩,
      course.grows⟩
    exact List.Subset.trans ((pairwise_cons.mp course.grows).1 earlier member) more
  origin := forall_mem_cons.mpr
    ⟨List.Subset.trans (course.origin project mem_cons_self) more, course.origin⟩

end Course
end Project

/-! ### Passes -/

def Bookmark.Marks (names : List String) (bookmark : Bookmark) : Prop :=
  bookmark.path = .null ∨ ∃ name ∈ names, bookmark.path = .text name

namespace Pass

variable {passIndex : Int} {position : Option (List Int)} {candidates : List Candidate}
  {path : String}

theorem fileRemovals_leave (proper : project.files.IsProper)
    (member : candidate ∈ fileRemovals project passIndex position) :
    candidate.Leaves project ∧ candidate.bookmark.path = .null := by
  obtain ⟨⟨size, offset⟩, -, made⟩ := mem_filterMap.mp member
  dsimp only at made
  split at made
  · cases made
  · next useful =>
    cases made
    have fewer : ((project.paths.drop offset).take size).length < project.paths.length := by
      simp only [Bool.or_eq_true, decide_eq_true_eq, not_or] at useful
      exact Nat.not_le.mp useful.1
    refine ⟨?_, rfl⟩
    -- as the names are all different, a part with fewer of them lacks one
    by_contra none
    have once : project.paths.Nodup := (sortBy_perm _).nodup_iff.mpr proper
    have whole : project.paths ⊆ (project.paths.drop offset).take size := by
      intro name listed
      by_contra stays
      exact none ⟨name, Project.mem_paths_iff.mp listed, stays⟩
    exact Nat.not_le.mpr fewer (subperm_of_subset once whole).length_le

/-- What a candidate of a file pass removes and marks. -/
def Stays (path : String) (candidate : Candidate) : Prop :=
  candidate.removed = [] ∧ candidate.bookmark.path = .text path

theorem stays_of_mem {pass : Pass} (files : pass ≠ .removeFiles)
    (made : pass.proposals project (some path) passIndex position = .ok candidates)
    (member : candidate ∈ candidates) : Stays path candidate := by
  cases pass with
  | removeFiles => exact absurd rfl files
  | deleteSiblings =>
    obtain ⟨file, -, made⟩ := bind_eq_ok_iff.mp made
    obtain ⟨grammar, -, made⟩ := bind_eq_ok_iff.mp made
    obtain ⟨groups, -, made⟩ := bind_eq_ok_iff.mp made
    cases made
    obtain ⟨⟨group, block⟩, -, within⟩ := mem_flatMap.mp member
    obtain ⟨⟨size, offset⟩, -, made⟩ := mem_filterMap.mp within
    dsimp only at made
    split at made
    · cases made
    · cases made
      exact ⟨rfl, rfl⟩
  | replaceSimpler =>
    obtain ⟨file, -, made⟩ := bind_eq_ok_iff.mp made
    obtain ⟨grammar, -, made⟩ := bind_eq_ok_iff.mp made
    cases made
    obtain ⟨chunk, -, rfl⟩ := mem_map.mp member
    exact ⟨rfl, rfl⟩
  | removeLines =>
    obtain ⟨file, -, made⟩ := bind_eq_ok_iff.mp made
    cases made
    obtain ⟨chunk, -, rfl⟩ := mem_map.mp member
    exact ⟨rfl, rfl⟩
  | discardWhitespace =>
    obtain ⟨file, -, made⟩ := bind_eq_ok_iff.mp made
    dsimp only at made
    split at made
    · cases made
      cases member
    · cases made
      rw [mem_singleton.mp member]
      exact ⟨rfl, rfl⟩

theorem leaves_of_mem (pass : Pass) {target : Option String} (proper : project.files.IsProper)
    (tracks : ∃ name, project.tracks name = true)
    (made : pass.proposals project target passIndex position = .ok candidates)
    (member : candidate ∈ candidates) :
    candidate.Leaves project ∧ candidate.bookmark.Marks target.toList := by
  by_cases files : pass = .removeFiles
  · subst files
    cases made
    obtain ⟨leaves, unmarked⟩ := fileRemovals_leave proper member
    exact ⟨leaves, .inl unmarked⟩
  · cases target with
    | none =>
      cases pass with
      | removeFiles => exact absurd rfl files
      | _ => cases made
    | some path =>
      obtain ⟨stays, marked⟩ := stays_of_mem files made member
      obtain ⟨name, tracked⟩ := tracks
      exact ⟨⟨name, tracked, by simp [stays]⟩, .inr ⟨path, by simp, marked⟩⟩

end Pass

/-! ### Sessions -/

def Standing.projects (standing : Standing) : List Project :=
  standing.progress.project :: standing.scenes.map (·.project)

/-- What a search accepted so far takes its course, and it stands at one of the files. -/
structure Standing.OnCourse (root : Path) (initial origin : List String) (standing : Standing) :
    Prop where
  course : Project.Course root initial origin standing.projects
  marked : standing.progress.bookmark.Marks initial

namespace Session

variable {session : Session}

theorem onEngine_keeps_standing {α : Type} {property : Standing → Prop} (step : Step Engine α) :
    (onEngine step).Keeps fun session => property session.toStanding :=
  keeps_within step fun _ _ holds => holds

/-- A scene tells of the project that is accepted. -/
theorem closed_onCourse (onCourse : session.toStanding.OnCourse root initial origin)
    (phase : Phase) : (session.closed phase).OnCourse root initial origin :=
  ⟨onCourse.course.push (onCourse.course.divides _ mem_cons_self) fun _ => id, onCourse.marked⟩

theorem calm_course : Calm (Bookmark.Marks initial)
    fun session => session.toStanding.OnCourse root initial origin where
  enter phase _ := Step.Keeps.bind (keeps_modify fun _ onCourse => closed_onCourse onCourse phase)
    fun _ => onEngine_keeps_standing _
  log _ _ := onEngine_keeps_standing _
  snapshot session := onEngine_keeps_standing _ session
  note _ _ _ _ marked onCourse := ⟨onCourse.course, marked⟩

theorem trial_keeps_scenes {scenes : List Scene} {bookmark : Bookmark} (candidate : Candidate) :
    (trial host candidate).Keeps fun session =>
      session.scenes = scenes ∧ session.progress.bookmark = bookmark := by
  refine Step.keeps_get.bind fun _ => ?_
  refine Step.Keeps.bind (keeps_within _ fun _ _ same => same) fun _ => ?_
  exact Step.keeps_get.bind fun _ => (keeps_throw _).ite (keeps_pure _)

theorem trial_ends_course (leaves : candidate.Leaves session.progress.project)
    (onCourse : session.toStanding.OnCourse root initial origin) :
    (trial host candidate).Ends
      (fun trial after => trial.candidate = candidate ∧ after.toStanding.OnCourse root initial origin)
      (fun _ after => after.toStanding.OnCourse root initial origin) session := by
  have divides := onCourse.course.divides _ mem_cons_self
  have kept : ∀ after : Session, (after.progress.project = session.progress.project ∨
      ∃ buffers result, session.progress.project.apply host.parsers candidate = .ok buffers ∧
        session.progress.project.commit buffers = (result, after.progress.project)) →
      after.scenes = session.scenes ∧ after.progress.bookmark = session.progress.bookmark →
      after.toStanding.OnCourse root initial origin := by
    rintro after commits ⟨scenes, bookmark⟩
    refine ⟨?_, by rw [bookmark]; exact onCourse.marked⟩
    rw [Standing.projects, scenes]
    rcases commits with same | ⟨buffers, result, applied, committed⟩
    · rw [same]
      exact onCourse.course
    · obtain ⟨changed, done, divides, more⟩ := divides.commit applied leaves
      rw [done] at committed
      cases committed
      exact (onCourse.course.push divides more).sublist
        (cons_sublist_cons.mpr (sublist_cons_self _ _))
  refine ((trial_commits host candidate session).and
    (trial_keeps_scenes candidate session ⟨rfl, rfl⟩)).imp ?_ ?_
  · rintro trial after ⟨⟨⟨same, -⟩, commits⟩, rest⟩
    refine ⟨same, kept after (commits.imp And.right ?_) rest⟩
    rintro ⟨-, buffers, applied, committed⟩
    exact ⟨buffers, _, applied, committed⟩
  · rintro failure after ⟨⟨-, commits⟩, rest⟩
    exact kept after commits rest

theorem guided_course : Guided host (fun target => ∀ path ∈ target, path ∈ initial)
    (fun project candidate => candidate.Leaves project ∧ candidate.bookmark.Marks initial)
    (fun session => session.toStanding.OnCourse root initial origin)
    (fun trial session => trial.candidate.bookmark.Marks initial ∧
      session.toStanding.OnCourse root initial origin)
    fun _ session => session.toStanding.OnCourse root initial origin where
  target session path onCourse there := by
    rintro path rfl
    exact ((onCourse.course.divides _ mem_cons_self).all path).mpr (.inl there)
  offers session pass path index position onCourse known := by
    have divides := onCourse.course.divides _ mem_cons_self
    refine ⟨fun candidates made candidate member => ?_, fun _ _ => onCourse⟩
    obtain ⟨leaves, marks⟩ := pass.leaves_of_mem divides.proper divides.some made member
    refine ⟨leaves, marks.imp_right ?_⟩
    rintro ⟨name, aimed, marked⟩
    exact ⟨name, known name (by simpa using aimed), marked⟩
  unplaced _ _ _ _ onCourse _ := onCourse
  enter phase data session _ := calm_course.enter phase data session
  log kind data := calm_course.log kind data
  trial candidate session offered _ onCourse := by
    refine (trial_ends_course offered.1 onCourse).imp ?_ fun _ _ => id
    rintro trial after ⟨rfl, onCourse⟩
    exact ⟨offered.2, onCourse⟩
  accept _ session _ so := calm_course.accept so.1 session so.2
  reject _ session _ so := calm_course.toQuiet.reject so.1 session so.2

end Session

/-! ### Searches -/

namespace Engine

variable {engine : Engine} {progress : Progress}

def Went (root : Path) (initial origin : List String) (engine : Engine) : Prop :=
  ∃ standing, engine.standing = some standing ∧ standing.OnCourse root initial origin

theorem search_course (divides : progress.project.Divides root initial)
    (marked : progress.bookmark.Marks initial) :
    (search host progress).Ends
      (fun result after => ∃ standing, after.standing = some standing ∧
        standing.OnCourse root initial progress.project.removed ∧
        result.project = standing.progress.project)
      (fun _ => Went root initial progress.project.removed) engine := by
  have begins : Project.Course root initial progress.project.removed [progress.project] :=
    .single divides fun _ => id
  refine search_ends_of (Session.guided_course.rounds _ _ ⟨begins, marked⟩)
    (fun _ session onCourse => ⟨_, rfl, onCourse⟩) (fun phase session onCourse => ?_) ?_
  · have closed := Session.closed_onCourse onCourse phase
    refine (finish_goes _ _ _ _).imp ?_ ?_
    · exact fun result after finished => ⟨_, rfl, closed, finished.2.2.1⟩
    · exact fun _ after _ => ⟨_, rfl, closed⟩
  · rintro failure title after ⟨standing, left, onCourse⟩
    exact (fail_keeps_standing failure title after left).mono
      fun _ left => ⟨standing, left, onCourse⟩

end Engine
end Whittle
