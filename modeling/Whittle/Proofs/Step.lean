import Whittle.Step

/-!
How steps end. `Step.Ends` says of a step and the state it runs on what it answers and
leaves, whether it ends well or fails. Each way to build a step has one rule, so that
what a step does is found by following its text; a step that another one calls is known
by its own statement and taken in with `Ends.imp`.

`Step.Loops` is the meaning of a loop that has no other end than its own body: the body
either ends it with an answer or says what to go on with.
-/

namespace Whittle

variable {ε α β : Type} {value : α} {result : Except Failure α} {condition : Prop}

/-- A computation in two parts has an answer if both parts have one. -/
theorem bind_eq_ok_iff {first : Except ε α} {next : α → Except ε β} {value : β} :
    (first >>= next) = .ok value ↔ ∃ between, first = .ok between ∧ next between = .ok value := by
  cases first with
  | error fault => simp [bind, Except.bind]
  | ok between => simp [bind, Except.bind]

section

variable {ζ : Type} {result : Except ε α} {change : ε → ζ}

@[simp] theorem mapError_ok : (Except.ok value).mapError change = .ok value :=
  rfl

@[simp] theorem mapError_error {fault : ε} :
    (Except.error fault : Except ε α).mapError change = .error (change fault) :=
  rfl

@[simp] theorem mapError_eq_ok_iff : result.mapError change = .ok value ↔ result = .ok value := by
  cases result <;> simp

end

namespace Step

variable {σ τ : Type}

def Outcome (done : α → σ → Prop) (failed : Failure → σ → Prop) : Except Failure α × σ → Prop
  | (.ok value, after) => done value after
  | (.error failure, after) => failed failure after

def Ends (step : Step σ α) (done : α → σ → Prop) (failed : Failure → σ → Prop) (state : σ) : Prop :=
  Outcome done failed (step.runOn state)

instance Outcome.decidable (done : α → σ → Prop) (failed : Failure → σ → Prop)
    [∀ value after, Decidable (done value after)]
    [∀ failure after, Decidable (failed failure after)] :
    (result : Except Failure α × σ) → Decidable (Outcome done failed result)
  | (.ok value, after) => inferInstanceAs (Decidable (done value after))
  | (.error failure, after) => inferInstanceAs (Decidable (failed failure after))

instance Ends.decidable (step : Step σ α) (done : α → σ → Prop) (failed : Failure → σ → Prop)
    [∀ value after, Decidable (done value after)]
    [∀ failure after, Decidable (failed failure after)] (state : σ) :
    Decidable (step.Ends done failed state) :=
  Outcome.decidable done failed (step.runOn state)

section Rules

variable {done : α → σ → Prop} {failed : Failure → σ → Prop} {state : σ}

variable {step : Step σ α}

variable {failed' : Failure → σ → Prop}

theorem Ends.imp {done' : α → σ → Prop}
    (ends : step.Ends done failed state) (well : ∀ value after, done value after → done' value after)
    (ill : ∀ failure after, failed failure after → failed' failure after) :
    step.Ends done' failed' state := by
  unfold Ends at ends ⊢
  generalize step.runOn state = result at ends ⊢
  rcases result with ⟨failure | value, after⟩
  · exact ill _ _ ends
  · exact well _ _ ends

abbrev Leaves (step : Step σ α) (property : σ → Prop) (state : σ) : Prop :=
  step.Ends (fun _ => property) (fun _ => property) state

theorem Ends.mono {property property' : σ → Prop} (leaves : step.Leaves property state)
    (so : ∀ after, property after → property' after) : step.Leaves property' state :=
  leaves.imp (fun _ => so) fun _ => so

theorem ends_of_forall (well : ∀ value after, done value after)
    (ill : ∀ failure after, failed failure after) : step.Ends done failed state := by
  unfold Ends
  rcases step.runOn state with ⟨failure | value, after⟩
  · exact ill _ _
  · exact well _ _

theorem Ends.and {done' : α → σ → Prop}
    (ends : step.Ends done failed state) (too : step.Ends done' failed' state) :
    step.Ends (fun value after => done value after ∧ done' value after)
      (fun failure after => failed failure after ∧ failed' failure after) state := by
  unfold Ends at ends too ⊢
  generalize step.runOn state = result at ends too ⊢
  rcases result with ⟨failure | value, after⟩ <;> exact ⟨ends, too⟩

theorem ends_const {property : σ → Prop} :
    step.Ends (fun _ => property) (fun _ => property) state ↔ property (step.runOn state).2 := by
  unfold Ends
  rcases step.runOn state with ⟨failure | value, after⟩ <;> rfl

theorem Ends.and_eq (ends : step.Ends done failed state) :
    step.Ends (fun value after => done value after ∧ after = (step.runOn state).2)
      (fun failure after => failed failure after ∧ after = (step.runOn state).2) state :=
  ends.and (ends_const.mpr rfl)

theorem ends_ok {after : σ}
    (ran : step.runOn state = (.ok value, after)) : step.Ends done failed state ↔ done value after := by
  unfold Ends
  rw [ran]
  rfl

theorem ends_error {failure : Failure} {after : σ}
    (ran : step.runOn state = (.error failure, after)) :
    step.Ends done failed state ↔ failed failure after := by
  unfold Ends
  rw [ran]
  rfl

theorem ends_self (step : Step σ α) (state : σ) :
    step.Ends (fun value after => step.runOn state = (.ok value, after))
      (fun failure after => step.runOn state = (.error failure, after)) state := by
  unfold Ends
  rcases step.runOn state with ⟨failure | value, after⟩ <;> rfl

theorem Ends.exists_ok (ends : step.Ends done (fun _ _ => False) state) :
    ∃ value after, step.runOn state = (.ok value, after) ∧ done value after := by
  rcases ran : step.runOn state with ⟨failure | value, after⟩
  · exact ((ends_error ran).mp ends).elim
  · exact ⟨value, after, rfl, (ends_ok ran).mp ends⟩

theorem Ends.exists_error (ends : step.Ends (fun _ _ => False) failed state) :
    ∃ failure after, step.runOn state = (.error failure, after) ∧ failed failure after := by
  rcases ran : step.runOn state with ⟨failure | value, after⟩
  · exact ⟨failure, after, rfl, (ends_error ran).mp ends⟩
  · exact ((ends_ok ran).mp ends).elim

@[simp] theorem ends_pure (value : α) :
    (pure value : Step σ α).Ends done failed state ↔ done value state :=
  Iff.rfl

theorem runOn_bind (step : Step σ α) (next : α → Step σ β) (state : σ) :
    (step >>= next).runOn state =
      match step.runOn state with
      | (.ok value, after) => (next value).runOn after
      | (.error failure, after) => (.error failure, after) := by
  simp only [runOn, ExceptT.run_bind, StateT.run_bind]
  rcases (ExceptT.run step).run state with ⟨failure | value, after⟩ <;> rfl

theorem runOn_within_eq_iff {part : σ → τ} {put : τ → σ → σ} {step : Step τ α} {state after : σ} :
    (within part put step).runOn state = (result, after) ↔
      ∃ inner, step.runOn (part state) = (result, inner) ∧ put inner state = after := by
  change ((step.runOn (part state)).1, put (step.runOn (part state)).2 state) = (result, after) ↔ _
  rcases step.runOn (part state) with ⟨answer, left⟩
  constructor
  · intro ran
    cases ran
    exact ⟨left, rfl, rfl⟩
  · rintro ⟨_, ran, rfl⟩
    cases ran
    rfl

@[simp] theorem runOn_get (state : σ) : (get : Step σ σ).runOn state = (.ok state, state) :=
  rfl

/-- A step in two parts answers if both parts do. -/
theorem runOn_bind_eq_ok_iff {next : α → Step σ β} {after : σ} {value : β} :
    (step >>= next).runOn state = (.ok value, after) ↔ ∃ first between,
      step.runOn state = (.ok first, between) ∧ (next first).runOn between = (.ok value, after) := by
  rw [runOn_bind]
  rcases step.runOn state with ⟨failure | first, between⟩
  · simp
  · constructor
    · intro ran
      exact ⟨first, between, rfl, ran⟩
    · rintro ⟨_, _, same, ran⟩
      cases same
      exact ran

theorem runOn_when_eq_ok [Decidable condition] {first : Step σ PUnit}
    {next : PUnit → Step σ α} {after : σ}
    (ran : (if condition then first >>= next else next ⟨⟩).runOn state = (.ok value, after)) :
    ∃ between, (condition ∧ first.runOn state = (.ok ⟨⟩, between) ∨ ¬ condition ∧ between = state) ∧
      (next ⟨⟩).runOn between = (.ok value, after) := by
  split at ran
  · next is =>
    obtain ⟨_, between, before, ran⟩ := runOn_bind_eq_ok_iff.mp ran
    exact ⟨between, .inl ⟨is, before⟩, ran⟩
  · next not => exact ⟨state, .inr ⟨not, rfl⟩, ran⟩

theorem runOn_lift_eq_ok_iff {after : σ} :
    (lift result : Step σ α).runOn state = (.ok value, after) ↔ result = .ok value ∧ state = after := by
  cases result with
  | error failure =>
    change ((.error failure : Except Failure α), state) = (.ok value, after) ↔ _
    simp
  | ok answer =>
    change ((.ok answer : Except Failure α), state) = (.ok value, after) ↔ _
    simp

@[simp] theorem ends_bind {done : β → σ → Prop} (step : Step σ α) (next : α → Step σ β) :
    (step >>= next).Ends done failed state ↔
      step.Ends (fun value => (next value).Ends done failed) failed state := by
  unfold Ends
  rw [runOn_bind]
  rcases step.runOn state with ⟨failure | value, after⟩ <;> rfl

theorem Ends.bind {done : β → σ → Prop} {between : α → σ → Prop} {next : α → Step σ β}
    (first : step.Ends between failed' state)
    (then' : ∀ value after, between value after → (next value).Ends done failed after)
    (ill : ∀ failure after, failed' failure after → failed failure after) :
    (step >>= next).Ends done failed state :=
  (ends_bind step next).mpr (first.imp then' ill)

@[simp] theorem ends_get {done : σ → σ → Prop} :
    (get : Step σ σ).Ends done failed state ↔ done state state :=
  Iff.rfl

theorem ends_get_bind (next : σ → Step σ α) :
    (get >>= next).Ends done failed state ↔ (next state).Ends done failed state := by
  rw [ends_bind, ends_get]

@[simp] theorem ends_set {done : PUnit → σ → Prop} (after : σ) :
    (set after : Step σ PUnit).Ends done failed state ↔ done ⟨⟩ after :=
  Iff.rfl

@[simp] theorem ends_modify {done : PUnit → σ → Prop} (change : σ → σ) :
    (modify change : Step σ PUnit).Ends done failed state ↔ done ⟨⟩ (change state) :=
  Iff.rfl

@[simp] theorem ends_lift_ok (value : α) :
    (lift (.ok value) : Step σ α).Ends done failed state ↔ done value state :=
  Iff.rfl

@[simp] theorem ends_lift_error (failure : Failure) :
    (lift (.error failure) : Step σ α).Ends done failed state ↔ failed failure state :=
  Iff.rfl

theorem ends_lift (result : Except Failure α) : (lift result : Step σ α).Ends done failed state ↔
      (∀ value, result = .ok value → done value state) ∧
        ∀ failure, result = .error failure → failed failure state := by
  cases result <;> simp

@[simp] theorem ends_attempt {done : Except Failure α → σ → Prop} (step : Step σ α) :
    (attempt step).Ends done failed state ↔
      step.Ends (fun value => done (.ok value)) (fun failure => done (.error failure)) state := by
  unfold Ends attempt
  change (match step.runOn state with | (result, after) => done result after) ↔ _
  rcases step.runOn state with ⟨failure | value, after⟩ <;> rfl

@[simp] theorem ends_within (part : σ → τ) (put : τ → σ → σ) (step : Step τ α) :
    (within part put step).Ends done failed state ↔
      step.Ends (fun value after => done value (put after state))
        (fun failure after => failed failure (put after state)) (part state) := by
  unfold Ends within
  change Outcome done failed ((step.runOn (part state)).1, put (step.runOn (part state)).2 state) ↔ _
  rcases step.runOn (part state) with ⟨failure | value, after⟩ <;> rfl

theorem ends_ite (condition : Prop) [Decidable condition] (yes no : Step σ α) :
    (if condition then yes else no).Ends done failed state ↔
      (condition → yes.Ends done failed state) ∧ (¬ condition → no.Ends done failed state) := by
  split <;> simp [*]

end Rules

/-! ### Properties that a step keeps -/

/-- Whatever comes of a step, it leaves a property as it found it. -/
def Keeps (step : Step σ α) (property : σ → Prop) : Prop :=
  ∀ state, property state → step.Ends (fun _ => property) (fun _ => property) state

section Keeps

variable {property : σ → Prop}

variable {step : Step σ α}

theorem keeps_iff : step.Keeps property ↔ ∀ state, property state → property (step.runOn state).2 :=
  forall₂_congr fun _ _ => ends_const

theorem Keeps.of_runOn {state after : σ} (keeps : step.Keeps property) (holds : property state)
    (ran : step.runOn state = (result, after)) : property after := by
  have kept := keeps_iff.mp keeps state holds
  rwa [ran] at kept

theorem keeps_pure (value : α) : (pure value : Step σ α).Keeps property :=
  fun _ holds => holds

theorem keeps_throw (failure : Failure) : (throw failure : Step σ α).Keeps property :=
  fun _ holds => holds

theorem keeps_lift (result : Except Failure α) : (lift result : Step σ α).Keeps property :=
  fun _ holds => (ends_lift result).mpr ⟨fun _ _ => holds, fun _ _ => holds⟩

theorem keeps_get : (get : Step σ σ).Keeps property :=
  fun _ holds => holds

theorem Keeps.attempt (keeps : step.Keeps property) : (attempt step).Keeps property :=
  fun state holds => (ends_attempt step).mpr (keeps state holds)

theorem Keeps.within {inner : τ → Prop} {part : σ → τ} {put : τ → σ → σ} {step : Step τ α}
    (keeps : step.Keeps inner) (down : ∀ state, property state → inner (part state))
    (up : ∀ after state, property state → inner after → property (put after state)) :
    (within part put step).Keeps property :=
  fun state holds => (ends_within part put step).mpr
    ((keeps (part state) (down state holds)).imp (fun _ after => up after state holds)
      fun _ after => up after state holds)

theorem keeps_within {part : σ → τ} {put : τ → σ → σ} (step : Step τ α)
    (untouched : ∀ after state, property state → property (put after state)) :
    (within part put step).Keeps property :=
  Keeps.within (fun _ _ => ends_of_forall (fun _ _ => trivial) fun _ _ => trivial)
    (fun _ _ => trivial) fun after state holds _ => untouched after state holds

theorem keeps_modify {change : σ → σ} (so : ∀ state, property state → property (change state)) :
    (modify change : Step σ PUnit).Keeps property :=
  so

theorem Keeps.bind {next : α → Step σ β} (first : step.Keeps property)
    (then' : ∀ value, (next value).Keeps property) : (step >>= next).Keeps property := by
  intro state holds
  exact (ends_bind step next).mpr ((first state holds).imp (fun value after => then' value after)
    fun _ _ => id)

theorem Keeps.ite [Decidable condition] {yes no : Step σ α}
    (whenSo : yes.Keeps property) (whenNot : no.Keeps property) :
    (if condition then yes else no).Keeps property := by
  split
  · exact whenSo
  · exact whenNot

end Keeps

/-! ### Loops -/

/-- A loop comes to an end: `body` is run on what the loop goes on with, until it fails or ends the
loop with an answer. -/
inductive Loops {κ : Type} (body : κ → Step σ (κ ⊕ α)) :
    κ → σ → Except Failure α × σ → Prop where
  | fails {here state failure after} : (body here).runOn state = (.error failure, after) →
      Loops body here state (.error failure, after)
  | ends {here state value after} : (body here).runOn state = (.ok (.inr value), after) →
      Loops body here state (.ok value, after)
  | goes {here there state after result} : (body here).runOn state = (.ok (.inl there), after) →
      Loops body there after result → Loops body here state result

section Loops

variable {κ : Type} {body : κ → Step σ (κ ⊕ α)}

/-- A function that goes round as the body says, and gets ahead each time, is the loop. -/
theorem loops_of_unfolds (run : κ → σ → Except Failure α × σ) (left : κ → σ → Nat)
    (unfolds : ∀ here state, run here state =
      match (body here).runOn state with
      | (.error failure, after) => (.error failure, after)
      | (.ok (.inr value), after) => (.ok value, after)
      | (.ok (.inl there), after) => run there after)
    (ahead : ∀ here state there after, (body here).runOn state = (.ok (.inl there), after) →
      left there after < left here state) (here : κ) (state : σ) :
    Loops body here state (run here state) := by
  induction bound : left here state using Nat.strongRecOn generalizing here state with
  | ind size ih =>
    rw [unfolds]
    rcases ran : (body here).runOn state with ⟨failure | there | value, after⟩
    · exact .fails ran
    · exact .goes ran (ih _ (bound ▸ ahead _ _ _ _ ran) there after rfl)
    · exact .ends ran

theorem Loops.leaves (inv : κ → σ → Prop) {done : α → σ → Prop} {failed : Failure → σ → Prop}
    (round : ∀ here state, inv here state →
      (body here).Ends (fun next after => next.elim (inv · after) (done · after)) failed state)
    {here : κ} {state : σ} {result : Except Failure α × σ} (loops : Loops body here state result)
    (begins : inv here state) : Outcome done failed result := by
  induction loops with
  | fails ran => exact (ends_error ran).mp (round _ _ begins)
  | ends ran => exact (ends_ok ran).mp (round _ _ begins)
  | goes ran _ ih => exact ih ((ends_ok ran).mp (round _ _ begins))

end Loops

end Step

export Step (ends_bind ends_get_bind ends_get ends_within ends_ok ends_error ends_ite ends_modify
  ends_lift ends_attempt ends_const ends_pure ends_set ends_of_forall ends_lift_ok keeps_pure keeps_get
  keeps_throw keeps_modify keeps_lift keeps_within keeps_iff)

end Whittle
