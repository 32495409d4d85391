import Mathlib.Data.List.Nodup
import Whittle.Proofs.Run
import Whittle.Proofs.Transaction

/-!
Projects whose files can be read again. A file of a project was parsed by the grammar that is chosen
for its name, and new bytes are accepted only if they are parsed by the grammar that the file has the
name of. Where grammars are told apart by their names, so that this is the same grammar, the contents
of a project make a project again at any time (`Project.exists_ofContents`).
-/

namespace Whittle

open List

variable {grammar : Grammar} {path name : String} {registry : Grammar.Registry} {parsers : Parsers}
  {project first : Project} {data : Bytes} {tree : Tree} {trees : Listing Tree}
  {candidate : Candidate} {buffers : Buffers}

def Grammar.Registry.IsNamed (registry : Registry) : Prop :=
  ∀ first ∈ registry.all, ∀ second ∈ registry.all, first.name = second.name →
    first.reading = second.reading

namespace Grammar.Registry

variable {registry : Registry}

theorem mem_all_of_select (chosen : registry.select path = .ok grammar) :
    grammar ∈ registry.all := by
  unfold select at chosen
  split at chosen
  · next found =>
    cases chosen
    exact mem_append_left _ (mem_of_find?_eq_some found)
  · split at chosen
    · next found =>
      cases chosen
      exact mem_append_right _ (Option.mem_toList.mpr found)
    · cases chosen

theorem mem_all_of_get (found : registry.get name = .ok grammar) :
    grammar ∈ registry.all ∧ grammar.name = name := by
  unfold get at found
  split at found
  · next is =>
    cases found
    exact ⟨mem_of_find?_eq_some is, by simpa using find?_some is⟩
  · cases found

theorem IsNamed.parse_eq (named : registry.IsNamed) {found : Grammar}
    (chosen : registry.select path = .ok grammar) (get : registry.get grammar.name = .ok found)
    (parsers : Parsers) (data : Bytes) : found.parse parsers data = grammar.parse parsers data := by
  obtain ⟨member, same⟩ := mem_all_of_get get
  have reading := named found member grammar (mem_all_of_select chosen) same
  rw [parse, parse, reading, same]

theorem isNamed_of_nodup (distinct : registry.names.Nodup) : registry.IsNamed := by
  intro first member second member' same
  rw [inj_on_of_nodup_map distinct member member' same]

theorem get_of_select (distinct : registry.names.Nodup)
    (chosen : registry.select path = .ok grammar) : registry.get grammar.name = .ok grammar := by
  have member := mem_all_of_select chosen
  cases found : registry.all.find? (·.name = grammar.name) with
  | none => simpa using find?_eq_none.mp found grammar member
  | some other =>
    have same : other.name = grammar.name := by simpa using find?_some found
    have listed := mem_of_find?_eq_some found
    rw [get, found, inj_on_of_nodup_map distinct listed member same]

end Grammar.Registry

namespace Project

def Reads (parsers : Parsers) (registry : Grammar.Registry) (name : String) (data : Bytes)
    (tree : Tree) : Prop :=
  ∃ grammar, registry.select name = .ok grammar ∧ grammar.parse parsers data = .ok tree

/-- Every file of a project has the name of the grammar for it, and the tree that this grammar makes
of its bytes. -/
structure IsReadable (parsers : Parsers) (registry : Grammar.Registry) (project : Project) : Prop where
  grammars : project.registry = registry
  named : ∀ name file, project.files.get? name = some file →
    ∃ grammar, registry.select name = .ok grammar ∧ file.grammar = grammar.name
  reads : ∀ name file, project.files.get? name = some file →
    Reads parsers registry name file.data file.tree

variable {changed : Project}

/-! ### From contents and back -/

theorem eq_of_parseFile {file : TrackedFile}
    (parsed : parseFile parsers registry path data = .ok file) :
    ∃ grammar tree, registry.select path = .ok grammar ∧ grammar.parse parsers data = .ok tree ∧
      file = { data, tree, grammar := grammar.name } := by
  obtain ⟨grammar, chosen, parsed⟩ := bind_eq_ok_iff.mp parsed
  split at parsed
  · next tree is =>
    cases parsed
    exact ⟨grammar, tree, chosen, is, rfl⟩
  · cases parsed
  · cases parsed

theorem Reads.exists_parseFile (reads : Reads parsers registry name data tree) :
    ∃ file, parseFile parsers registry name data = .ok file := by
  obtain ⟨grammar, chosen, parsed⟩ := reads
  exact ⟨{ data, tree, grammar := grammar.name }, by
    rw [parseFile, chosen]
    simp only [bind, Except.bind, parsed]
    rfl⟩

variable {contents : Listing Bytes}

theorem isReadable_of_ofContents {root : Path} {removed : List String}
    (made : ofContents parsers registry root contents removed = .ok project) :
    project.IsReadable parsers registry := by
  obtain ⟨files, parsed, made⟩ := bind_eq_ok_iff.mp made
  cases made
  have all : ∀ name file, Listing.get? files name = some file → ∃ grammar,
      registry.select name = .ok grammar ∧ grammar.parse parsers file.data = .ok file.tree ∧
      file.grammar = grammar.name := by
    intro name file found
    obtain ⟨entry, -, made⟩ := forall_of_mapM parsed _ (Listing.mem_of_get? found)
    obtain ⟨tracked, read, same⟩ := bind_eq_ok_iff.mp made
    cases same
    obtain ⟨grammar, tree, chosen, parsed, rfl⟩ := eq_of_parseFile read
    exact ⟨grammar, chosen, parsed, rfl⟩
  refine ⟨rfl, fun name file found => ?_, fun name file found => ?_⟩
  · obtain ⟨grammar, chosen, -, same⟩ := all name file found
    exact ⟨grammar, chosen, same⟩
  · obtain ⟨grammar, chosen, parsed, -⟩ := all name file found
    exact ⟨grammar, chosen, parsed⟩

/-- Contents of which every file can be read make a project. -/
theorem exists_ofContents (root : Path) (removed : List String)
    (reads : ∀ entry ∈ contents, ∃ tree, Reads parsers registry entry.1 entry.2 tree) :
    ∃ project, ofContents parsers registry root contents removed = .ok project := by
  suffices ∃ files, (contents.mapM fun entry => do
      return (entry.1, ← parseFile parsers registry entry.1 entry.2)) = .ok files by
    obtain ⟨files, parsed⟩ := this
    rw [ofContents, parsed]
    exact ⟨_, rfl⟩
  induction contents with
  | nil => exact ⟨[], rfl⟩
  | cons entry rest ih =>
    obtain ⟨tree, read⟩ := reads entry mem_cons_self
    obtain ⟨file, parsed⟩ := read.exists_parseFile
    obtain ⟨files, later⟩ := ih (forall_mem_cons.mp reads).2
    rw [mapM_cons, parsed, later]
    exact ⟨(entry.1, file) :: files, rfl⟩

/-! ### Committing -/

def All (good : String → TrackedFile → Prop) (project : Project) : Prop :=
  ∀ name file, project.files.get? name = some file → good name file

section All

variable {good : String → TrackedFile → Prop}

theorem All.commitFile {data : Option Bytes} (all : project.All good)
    (renews : ∀ file bytes tree, data = some bytes → trees.get? path = some tree →
      good path file → good path { file with data := bytes, tree })
    (committed : project.commitFile trees path data = .ok changed) :
    changed.All good ∧ changed.registry = project.registry := by
  cases data with
  | none =>
    obtain ⟨file, found, committed⟩ := bind_eq_ok_iff.mp committed
    cases committed
    refine ⟨fun name file found => ?_, rfl⟩
    rw [Listing.get?_erase] at found
    split at found
    · cases found
    · exact all name file found
  | some bytes =>
    obtain ⟨file, found, committed⟩ := bind_eq_ok_iff.mp committed
    split at committed
    · next tree parsed =>
      cases committed
      refine ⟨fun name later has => ?_, rfl⟩
      rw [Listing.get?_set] at has
      split at has
      · next same =>
        cases has
        exact same ▸ renews file bytes tree rfl parsed (all path file (file_eq_ok_iff.mp found))
      · exact all name later has
    · cases committed

theorem All.commitFiles {entries : Listing (Option Bytes)} (all : project.All good)
    (renews : ∀ name file data tree, (name, some data) ∈ entries →
      trees.get? name = some tree → good name file → good name { file with data, tree }) :
    (project.commitFiles trees entries).2.All good ∧
      (project.commitFiles trees entries).2.registry = project.registry := by
  induction entries generalizing project with
  | nil => exact ⟨all, rfl⟩
  | cons entry rest ih =>
    obtain ⟨path, data⟩ := entry
    rw [commitFiles]
    split
    · next changed committed =>
      obtain ⟨kept, same⟩ := all.commitFile (fun file bytes tree is =>
        renews path file bytes tree (is ▸ mem_cons_self)) committed
      obtain ⟨later, still⟩ := ih kept fun name file data tree member =>
        renews name file data tree (mem_cons_of_mem _ member)
      exact ⟨later, still.trans same⟩
    · exact ⟨all, rfl⟩

/-- New bytes for a file come with the tree that is made of them. -/
theorem reparse_of_apply (applied : project.apply parsers candidate = .ok buffers)
    (member : (name, some data) ∈ buffers.contents)
    (parsed : buffers.trees.get? name = some tree) :
    project.reparse parsers name data = .ok tree := by
  obtain ⟨change, spliced, found⟩ := get?_contents_of_apply applied
  obtain ⟨_, again, grown⟩ := get?_trees_of_apply applied
  cases spliced.symm.trans again
  have here := found name
  rw [Listing.get?_of_mem (suits_of_apply applied).proper member] at here
  rw [grown] at parsed
  split at here
  · cases here
  · next stays =>
    -- the new bytes and their tree come from one change
    obtain ⟨⟨path, new, fresh⟩, rfl, becomes⟩ := Option.bind_eq_some_iff.mp here.symm
    rw [if_neg stays, Option.bind_some] at parsed
    split at becomes
    · next same =>
      rw [if_pos same] at parsed
      cases becomes
      cases parsed
      cases same
      unfold Project.spliced at spliced
      split at spliced
      · cases spliced
      · split at spliced
        · cases spliced
        · obtain ⟨file, -, spliced⟩ := bind_eq_ok_iff.mp spliced
          obtain ⟨new, -, spliced⟩ := bind_eq_ok_iff.mp spliced
          obtain ⟨tree, reparsed, spliced⟩ := bind_eq_ok_iff.mp spliced
          cases spliced
          exact reparsed
    · cases becomes

/-- What holds of every file, and of a file with new bytes and their tree, holds of every file after
buffers that were applied are committed. -/
theorem All.commit (all : project.All good)
    (applied : project.apply parsers candidate = .ok buffers)
    (renews : ∀ name file data tree, project.reparse parsers name data = .ok tree →
      good name file → good name { file with data, tree }) :
    (project.commit buffers).2.All good ∧ (project.commit buffers).2.registry = project.registry := by
  have kept := all.commitFiles fun name file data tree member parsed =>
    renews name file data tree (reparse_of_apply applied member parsed)
  unfold Project.commit
  split
  · next changed done =>
    rw [done] at kept
    exact kept
  · exact kept

end All

/-- What becomes of a project by buffers that were applied to it can be read again. -/
theorem IsReadable.commit (named : registry.IsNamed)
    (readable : project.IsReadable parsers registry)
    (applied : project.apply parsers candidate = .ok buffers) :
    (project.commit buffers).2.IsReadable parsers registry := by
  have all : project.All fun name file =>
      (∃ grammar, registry.select name = .ok grammar ∧ file.grammar = grammar.name) ∧
        Reads parsers registry name file.data file.tree :=
    fun name file found => ⟨readable.named name file found, readable.reads name file found⟩
  obtain ⟨kept, same⟩ := all.commit applied fun name file data tree reparsed good => by
    refine ⟨good.1, ?_⟩
    obtain ⟨found, has, reparsed⟩ := bind_eq_ok_iff.mp reparsed
    obtain ⟨file, tracked, has⟩ := bind_eq_ok_iff.mp has
    obtain ⟨grammar, chosen, own⟩ := readable.named name file (file_eq_ok_iff.mp tracked)
    have get : registry.get grammar.name = .ok found := by
      rw [← own, ← readable.grammars]
      exact has
    split at reparsed
    · cases reparsed
    · exact ⟨grammar, chosen, (named.parse_eq chosen get parsers data).symm.trans reparsed⟩
  exact ⟨same.trans readable.grammars, fun name file found => (kept name file found).1,
    fun name file found => (kept name file found).2⟩

/-! ### Developments -/

/-- What a project may become: again and again, buffers that were made from the project as it stands
are committed. -/
inductive Develops (parsers : Parsers) (first : Project) : Project → Prop where
  | start : Develops parsers first first
  | commit {project changed : Project} {candidate : Candidate} {buffers : Buffers}
      {result : Except Failure Unit} :
      Develops parsers first project → project.apply parsers candidate = .ok buffers →
      project.commit buffers = (result, changed) → Develops parsers first changed

section Develops

theorem Develops.isReadable (named : registry.IsNamed)
    (develops : Develops parsers first project) (readable : first.IsReadable parsers registry) :
    project.IsReadable parsers registry := by
  induction develops with
  | start => exact readable
  | commit _ applied committed ih =>
    have kept := ih.commit named applied
    rw [committed] at kept
    exact kept

/-- A project goes on with the files it had, each under its name once. -/
theorem Develops.tracks (develops : Develops parsers first project)
    (proper : first.files.IsProper) :
    project.files.IsProper ∧
      ∀ name, project.tracks name = true → first.tracks name = true := by
  induction develops with
  | start => exact ⟨proper, fun _ tracked => tracked⟩
  | commit _ applied committed ih =>
    have suits := suits_of_apply applied
    obtain ⟨changed, done, becomes, -⟩ := commit_of_suits ih.1 suits
    cases committed.symm.trans done
    exact ⟨becomes.proper, fun name tracked => ih.2 name (tracks_of_becomes suits becomes tracked)⟩

end Develops

end Project

/-! ### Trials -/

theorem Trial.run_keeps_developing {host : Host} {driver : String} {hooks : Hooks}
    (candidate : Candidate) :
    (run host driver hooks candidate).Keeps (first.Develops host.parsers ·.project) := by
  refine Step.keeps_iff.mpr fun bench develops => ?_
  rcases run_changes host driver hooks candidate bench _ rfl with same | ⟨buffers, result, applied, done⟩
  · exact same ▸ develops
  · exact develops.commit applied done

/-! ### The trees of a project -/

namespace Project

/-- The trees of a project are always those of its bytes. The grammars have names of their own, and a
project is made from contents that have each name once. Whatever buffers are then committed, each
made from the project as it stands: every tracked file has the tree that the grammar for its name
makes of its bytes, and the name of this grammar as it had it at first. What a candidate is applied
to can be committed, which makes of the contents what the candidate says and has the foretold size.
A trial of a candidate that does not commit it, because it cannot be applied or for another reason,
leaves the project as it was. -/
theorem develops_parsed {root : Path} {contents : Listing Bytes} {removed : List String}
    {first : Project} (distinct : registry.names.Nodup) (proper : Listing.IsProper contents)
    (made : ofContents parsers registry root contents removed = .ok first)
    (develops : Develops parsers first project) :
    (∀ name file, Listing.get? project.files name = some file →
      ∃ grammar old, registry.select name = .ok grammar ∧
        grammar.parse parsers file.data = .ok file.tree ∧ project.grammarOf name = .ok grammar ∧
        Listing.get? first.files name = some old ∧ old.grammar = file.grammar) ∧
    (∀ candidate buffers, project.apply parsers candidate = .ok buffers →
      ∃ changed, project.commit buffers = (.ok (), changed) ∧
        candidate.Turns (Listing.get? project.contents) (Listing.get? changed.contents) ∧
        changed.size = buffers.size) ∧
    ∀ (host : Host) driver hooks candidate (bench : Bench), host.parsers = parsers →
      bench.project = project →
      ∃ result after, (Trial.run host driver hooks candidate).runOn bench = (result, after) ∧
        ((∀ trial, result = .ok trial → trial.committed = false) → after.project = project) := by
  have named := Grammar.Registry.isNamed_of_nodup distinct
  have readable := isReadable_of_ofContents made
  have proper : Listing.IsProper first.files :=
    isProper_of_contents ((contents_of_ofContents made).1 ▸ proper)
  have current := develops.isReadable named readable
  obtain ⟨proper, tracked⟩ := develops.tracks proper
  refine ⟨fun name file found => ?_, fun candidate buffers applied => ?_,
    fun host driver hooks candidate bench same accepted => ?_⟩
  · obtain ⟨grammar, chosen, own⟩ := current.named name file found
    obtain ⟨_, again, parsed⟩ := current.reads name file found
    cases chosen.symm.trans again
    obtain ⟨old, had⟩ := tracks_iff.mp (tracked name (tracks_iff.mpr ⟨file, found⟩))
    obtain ⟨_, again, old_own⟩ := readable.named name old had
    cases chosen.symm.trans again
    refine ⟨grammar, old, chosen, parsed, ?_, had, old_own.trans own.symm⟩
    rw [grammarOf, file_eq_ok_iff.mpr found, current.grammars]
    change registry.get file.grammar = _
    rw [own]
    exact Grammar.Registry.get_of_select distinct chosen
  · obtain ⟨changed, done, becomes, size, -⟩ := commit_of_suits proper (suits_of_apply applied)
    have turns := turns_of_apply applied
    rw [← funext becomes.contents] at turns
    exact ⟨changed, done, turns, size⟩
  · subst same accepted
    have ends := Trial.run_commits host driver hooks candidate bench
    unfold Step.Ends at ends
    rcases ran : (Trial.run host driver hooks candidate).runOn bench with ⟨failure | trial, after⟩
    · rw [ran] at ends
      refine ⟨.error failure, after, rfl, fun _ => ?_⟩
      rcases ends with kept | ⟨buffers, reason, applied, failed⟩
      · exact kept
      · obtain ⟨changed, done, -⟩ := commit_of_suits proper (suits_of_apply applied)
        cases failed.symm.trans done
    · rw [ran] at ends
      refine ⟨.ok trial, after, rfl, fun rejected => ?_⟩
      rcases ends with ⟨-, ⟨-, kept⟩ | ⟨⟨committed, -⟩, -⟩⟩
      · exact kept
      · cases (rejected trial rfl).symm.trans committed

end Project

/-- Once its first line and a second file are gone, the small project has the tree of what is left. -/
theorem Sample.develops_parsed_lines : Grammar.Builtin.registry.names.Nodup ∧ ∃ first changed,
      Project.ofContents host.parsers Grammar.Builtin.registry root [("a", lines), ("b", [122])] =
        .ok first ∧
      Project.Develops host.parsers first changed ∧ changed.removed = ["b"] ∧
      changed.contents = [("a", [121, 10])] ∧
      ∀ name file, Listing.get? changed.files name = some file →
        ∃ grammar, Grammar.Builtin.registry.select name = .ok grammar ∧
          grammar.parse host.parsers file.data = .ok file.tree := by
  have distinct : Grammar.Builtin.registry.names.Nodup := by decide
  have proper : Listing.IsProper [("a", lines), ("b", [122])] := by
    simp [Listing.IsProper, Listing.names]
  let first : Project := { project with files := [("a", fileOf lines), ("b", fileOf [122])] }
  have made : Project.ofContents host.parsers Grammar.Builtin.registry root
      [("a", lines), ("b", [122])] = .ok first := by rfl
  have applied : ∃ buffers, first.apply host.parsers { candidate with removed := ["b"] } =
      .ok buffers ∧ (first.commit buffers).2.removed = ["b"] ∧
        (first.commit buffers).2.contents = [("a", [121, 10])] := ⟨_, rfl, rfl, rfl⟩
  obtain ⟨buffers, applied, removed, contents⟩ := applied
  have develops := Project.Develops.start.commit applied rfl
  refine ⟨distinct, first, _, made, develops, removed, contents, fun name file found => ?_⟩
  obtain ⟨grammar, old, chosen, parsed, -⟩ :=
    (Project.develops_parsed distinct proper made develops).1 name file found
  exact ⟨grammar, chosen, parsed⟩

end Whittle
