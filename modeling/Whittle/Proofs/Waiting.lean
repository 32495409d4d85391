import Mathlib.Data.Fintype.EquivFin
import Whittle.Proofs.Transaction

/-!
Waiting for the driver. The judge looks at a running driver in polls, and the first poll that finds
a wish to stop or the deadline reached decides the run (`Vigil.decision?`): until then the driver
may end by itself, whatever the clock says when it does. Some number of polls decides every run if a
wish to stop comes, or if the clock goes on towards a deadline: there are only so many doubles.
-/

namespace Whittle

open List

/-- What the clock shows at a poll, with each reading on top of the one before it. -/
def Process.clockAt (process : Process) (interval clock : Float) : Nat → Float
  | 0 => clock
  | poll + 1 => process.reading (poll + 1) (process.clockAt interval clock poll) interval

/-- A judge that begins to wait for a process which is to end by a deadline. -/
structure Vigil where
  judge : Judge
  watching : Bool
  process : Process
  deadline : Option Float
  clock : Float
  cancelled : Bool

namespace Vigil

variable (vigil : Vigil) {poll : Nat}

/-! ### Polls -/

def clockAt (poll : Nat) : Float :=
  vigil.process.clockAt vigil.judge.pollInterval vigil.clock poll

def cancelledAt (poll : Nat) : Bool :=
  vigil.cancelled || vigil.process.cancelAt.any fun moment => 0 < moment && moment ≤ poll

/-- Whether a poll finds a wish to stop that the judge looks out for. -/
def findsWish (poll : Nat) : Bool := vigil.watching && vigil.cancelledAt poll

def findsDeadline (poll : Nat) : Bool := vigil.deadline.any (· ≤ vigil.clockAt poll)

def decides (poll : Nat) : Bool := vigil.findsWish poll || vigil.findsDeadline poll

/-- The first poll that decides the run, of those that a process outlasts. -/
def decision? (polls : Nat) : Option Nat := (range' 1 polls).find? vigil.decides

/-- Until a poll finds the deadline reached, each has a later clock than those before it. -/
def Advances : Prop :=
  ∀ earlier later, earlier < later → (∀ poll ∈ range' 1 later, vigil.findsDeadline poll = false) →
    vigil.clockAt earlier < vigil.clockAt later

def ending (polls : Nat) : Option Nat → Judge.Ending × Float × Bool
  | none => (.exited, vigil.clockAt polls + vigil.process.duration, vigil.cancelledAt polls)
  | some poll => (if vigil.findsWish poll then .cancelled else .timedOut, vigil.clockAt poll,
      vigil.cancelledAt poll)

theorem cancelledAt_zero : vigil.cancelledAt 0 = vigil.cancelled := by
  unfold cancelledAt
  cases vigil.process.cancelAt <;> grind

theorem cancelledAt_succ (poll : Nat) : vigil.cancelledAt (poll + 1) =
    (vigil.cancelledAt poll || vigil.process.cancelAt = some (poll + 1)) := by
  unfold cancelledAt
  cases vigil.process.cancelAt <;> grind

/-- A wait of which some polls are over ends with the first that decides, of those to come. -/
theorem wait_eq_ending (left waited : Nat) :
    vigil.judge.wait vigil.watching vigil.process vigil.deadline left waited (vigil.clockAt waited)
        (vigil.cancelledAt waited) =
      vigil.ending (waited + left) ((range' (waited + 1) left).find? vigil.decides) := by
  induction left generalizing waited with
  | zero => rfl
  | succ left ih =>
    rw [Judge.wait, clockAt, ← Process.clockAt, ← clockAt, ← cancelledAt_succ, range'_succ, find?_cons,
      decides, findsWish, findsDeadline]
    cases wish : vigil.watching && vigil.cancelledAt (waited + 1) with
    | true => simp [ending, findsWish, wish]
    | false =>
      cases reached : vigil.deadline.any (· ≤ vigil.clockAt (waited + 1)) with
      | true => simp [ending, findsWish, wish]
      | false => simpa [wish, reached, Nat.add_assoc, Nat.add_comm 1 left] using ih (waited + 1)

/-! ### Polls that decide -/

variable {vigil} in
/-- Once a poll decides, it does not matter how much longer the process lasts. -/
theorem decision?_eq {polls : Nat} (decides : vigil.decides poll = true) (later : 0 < poll)
    (lasts : poll ≤ polls) :
    vigil.decision? polls = vigil.decision? poll ∧ (vigil.decision? poll).isSome = true := by
  have decided : (vigil.decision? poll).isSome = true :=
    find?_isSome.mpr ⟨poll, by simp [mem_range'_1]; omega, decides⟩
  obtain ⟨more, rfl⟩ := Nat.exists_eq_add_of_le lasts
  refine ⟨?_, decided⟩
  rw [decision?, ← range'_append_1, find?_append, ← decision?]
  exact Option.or_of_isSome decided

/-- Once a wish to stop has come, it decides the run if the judge looks out for it. -/
theorem exists_decides_of_wish (watching : vigil.watching = true)
    (wish : vigil.cancelled = true ∨ ∃ moment ∈ vigil.process.cancelAt, 0 < moment) :
    ∃ poll, 0 < poll ∧ vigil.decides poll = true := by
  rcases wish with already | ⟨moment, comes, later⟩
  · exact ⟨1, Nat.one_pos, by simp [decides, findsWish, cancelledAt, watching, already]⟩
  · have comes := Option.mem_def.mp comes
    exact ⟨moment, later, by simp [decides, findsWish, cancelledAt, watching, comes, later]⟩

theorem not_lt_self (double : Float) : ¬ double < double := by
  change ¬ decide ((double.toModel.unpack.compare double.toModel.unpack == some .lt) = true) = true
  have same (sign : Float.Model.UnpackedFloat.Sign) : compare sign sign = .eq := by
    cases sign <;> rfl
  rcases double.toModel.unpack with sign | _ | _ | ⟨_ | _, _, _, _⟩ <;>
    dsimp only [Float.Model.UnpackedFloat.compare] <;> simp [same]

instance : Finite Float := by
  refine Finite.of_injective (fun double : Float => double.toModel.toBits.toFin) ?_
  intro one other same
  obtain ⟨⟨_, _⟩⟩ := one
  obtain ⟨⟨_, _⟩⟩ := other
  cases UInt64.toFin_inj.mp same
  rfl

/-- A clock that goes on comes to the deadline: two polls would show the same double before it. -/
theorem exists_decides_of_advances (advances : vigil.Advances) :
    ∃ poll, 0 < poll ∧ vigil.decides poll = true := by
  by_contra never
  have rises : ∀ earlier later, earlier < later →
      vigil.clockAt (earlier + 1) < vigil.clockAt (later + 1) := by
    intro earlier later before
    refine advances _ _ (Nat.succ_lt_succ before) fun poll among => ?_
    refine Bool.eq_false_iff.mpr fun reached => never ⟨poll, (mem_range'_1.mp among).1, ?_⟩
    simp [decides, reached]
  refine not_injective_infinite_finite (fun poll => vigil.clockAt (poll + 1)) ?_
  intro one other same
  dsimp only at same
  rcases Nat.lt_trichotomy one other with before | equal | behind
  · exact absurd (same ▸ rises one other before) (not_lt_self _)
  · exact equal
  · exact absurd (same ▸ rises other one behind) (not_lt_self _)

end Vigil

/-! ### Runs of the driver -/

/-- The descendants that are still there, as far as the table of processes tells. -/
def Process.survivors (process : Process) : List String :=
  if process.known then (process.descendants.filter (·.2)).map (·.1) else []

namespace Judge

variable {host : Host} {root : Path} {driver : String} {watching : Bool} {judge : Judge}
  {world : World} {process : Process} {deadline : Option Float}

theorem victims_eq (process : Process) :
    victims process = process.survivors.map ("kill " ++ ·) ++ ["kill driver"] := by
  unfold victims Process.survivors
  split <;> simp

/-- With an integer for its limit, some end of an output can be told. -/
theorem exists_tail {limit : Int} (limited : judge.outputLimit = .int limit) (output : Bytes) :
    ∃ text, judge.tail output = .ok text := by
  refine ⟨_, bind_eq_ok_iff.mpr ⟨(output.length - limit).toNat, ?_, rfl⟩⟩
  simp only [surplus, limited, Value.number?]

def vigil (judge : Judge) (watching : Bool) (process : Process) (deadline : Option Float)
    (world : World) : Vigil :=
  ⟨judge, watching, process, deadline, world.clock, world.cancelled⟩

theorem wait_eq (polls : Nat) :
    judge.wait watching process deadline polls 0 world.clock world.cancelled =
      (judge.vigil watching process deadline world).ending polls
        ((judge.vigil watching process deadline world).decision? polls) := by
  have whole := (judge.vigil watching process deadline world).wait_eq_ending polls 0
  rwa [Vigil.cancelledAt_zero, Nat.zero_add] at whole

/-- What the first poll that decides makes of a run. -/
def Follows (vigil : Vigil) (world : World) (verdict : Verdict) (after : World) : Prop :=
  match vigil.decision? vigil.process.polls with
  | none => (∃ duration output, verdict = .exited vigil.process.exit duration output) ∧
      (verdict.reproduces = true ↔ vigil.process.exit = 0) ∧ after.killed = world.killed
  | some poll => verdict = .inconclusive (if vigil.findsWish poll then "cancelled"
        else s!"driver exceeded {vigil.judge.timeout.shown}s timeout")
        (vigil.clockAt poll - vigil.clock) ∧
      after.killed = world.killed ++ vigil.process.survivors.map ("kill " ++ ·) ++ ["kill driver"]

theorem observe_follows {limit : Int} (limited : judge.outputLimit = .int limit) :
    ∃ verdict after, judge.observe watching process deadline world = (.ok verdict, after) ∧
      Follows (judge.vigil watching process deadline world) world verdict after := by
  obtain ⟨text, told⟩ := exists_tail limited process.output
  have polls : (judge.vigil watching process deadline world).process.polls = process.polls := rfl
  simp only [observe, wait_eq, Follows, polls]
  cases (judge.vigil watching process deadline world).decision? process.polls with
  | none =>
    simp only [Vigil.ending, told]
    exact ⟨_, _, rfl, ⟨_, _, rfl⟩, decide_eq_true_iff, rfl⟩
  | some poll =>
    simp only [Vigil.ending, victims_eq, ← append_assoc]
    cases (judge.vigil watching process deadline world).findsWish poll with
    | true => exact ⟨_, _, rfl, rfl, rfl⟩
    | false => exact ⟨_, _, rfl, rfl, rfl⟩

/-- A driver that could be started is judged by its exit code if no poll decides the run before its
end, and nothing is killed. Otherwise the first poll that decides tells why there is no answer, a
wish to stop before the deadline, and the descendants that are still there are killed and then the
driver. With a wish to stop that comes, or a time limit towards which the clock goes on, some number
of polls decides every run: a process that outlasts them is not waited for any longer. -/
theorem run_by_first_decision {disk : Disk} {cancels : Bool} {limit : Int}
    (started : host.launch root driver (world.launches + 1) world.disk =
      { disk, start := .running cancels process })
    (due : judge.deadline world.clock = .ok deadline) (limited : judge.outputLimit = .int limit) :
    let begun := { world with
      launches := world.launches + 1, disk, cancelled := world.cancelled || cancels }
    let vigil := judge.vigil watching process deadline begun
    (∃ verdict later after,
      judge.run host root driver watching world = (.ok verdict, later, after) ∧
      Follows vigil world verdict after) ∧
    (watching = true ∧ (begun.cancelled = true ∨ ∃ moment ∈ process.cancelAt, 0 < moment) ∨
        deadline.isSome = true ∧ vigil.Advances →
      ∃ bound, ∀ polls ≥ bound,
        judge.wait watching process deadline polls 0 begun.clock begun.cancelled =
          judge.wait watching process deadline bound 0 begun.clock begun.cancelled ∧
        (judge.wait watching process deadline bound 0 begun.clock begun.cancelled).1 ≠
          .exited) := by
  intro begun vigil
  constructor
  · obtain ⟨verdict, after, observed, follows⟩ :=
      @observe_follows watching { judge with invocations := judge.invocations + 1 } begun process
        deadline limit limited
    have due : { judge with invocations := judge.invocations + 1 }.deadline world.clock =
      .ok deadline := due
    refine ⟨verdict, (judge.run host root driver watching world).2.1, after, ?_, follows⟩
    simp only [run, started, due]
    rw [observed]
  · intro ends
    obtain ⟨poll, later, decides⟩ : ∃ poll, 0 < poll ∧ vigil.decides poll = true := by
      rcases ends with ⟨watches, wish⟩ | ⟨_, advances⟩
      · exact vigil.exists_decides_of_wish watches wish
      · exact vigil.exists_decides_of_advances advances
    refine ⟨poll, fun polls lasts => ?_⟩
    obtain ⟨same, decided⟩ := Vigil.decision?_eq decides later lasts
    obtain ⟨first, found⟩ := Option.isSome_iff_exists.mp decided
    rw [wait_eq, wait_eq, same, found]
    refine ⟨rfl, ?_⟩
    dsimp only [Vigil.ending]
    split <;> exact nofun

end Judge

namespace Sample

/-- A driver that hangs, with one descendant that is there and one that is gone. The third poll is late,
and there is both a wish to stop and the end of its time. -/
def hanging : Process where
  polls := 1000000
  reading poll clock interval := if poll < 3 then clock + interval else clock + 0.5
  cancelAt := some 3
  descendants := [("helper", true), ("gone", false)]

def crowded : Host :=
  { host with launch := fun _ _ _ disk => { disk, start := .running false hanging } }

def patient : Judge := { timeout := .float 0.5 }

/-- The wish to stop goes first, and with the time limit the wait would be over without it. -/
theorem hanging_by_first_decision :
    (∃ duration later after, patient.run crowded root "driver" true { disk } =
        (.ok (.inconclusive "cancelled" duration), later, after) ∧
      after.killed = ["kill helper", "kill driver"]) ∧
    ∃ bound, ∀ polls ≥ bound,
      (patient.wait true hanging (some (0.0 + 0.5)) polls 0 0.0 false).1 ≠ .exited := by
  let vigil := patient.vigil true hanging (some (0.0 + 0.5)) { disk }
  obtain ⟨⟨verdict, later, after, ran, follows⟩, ends⟩ :=
    @Judge.run_by_first_decision crowded root "driver" true patient { disk } hanging
      (some (0.0 + 0.5)) disk false 4000 rfl rfl rfl
  have decides : vigil.decides 3 = true := by decide
  have third : vigil.decision? vigil.process.polls = some 3 :=
    (Vigil.decision?_eq decides (by decide) (by decide)).1.trans (by decide)
  have advances : vigil.Advances := by
    intro earlier later before none
    have early : later < 3 := by
      by_contra late
      exact absurd (none 3 (by simp [List.mem_range'_1]; omega)) (by decide)
    have rises : ∀ later < 3, ∀ earlier < later, vigil.clockAt earlier < vigil.clockAt later := by
      decide
    exact rises later early earlier before
  change Judge.Follows vigil { disk } verdict after at follows
  rw [Judge.Follows, third] at follows
  obtain ⟨rfl, killed⟩ := follows
  obtain ⟨bound, ends⟩ := ends (.inr ⟨rfl, advances⟩)
  refine ⟨⟨_, later, after, ran, killed⟩, bound, fun polls lasts => ?_⟩
  obtain ⟨same, ends⟩ := ends polls lasts
  exact same ▸ ends

end Sample
end Whittle
