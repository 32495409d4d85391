import Whittle.Proofs.Step
import Whittle.Sorting

/-!
Sorting loses no items and makes none up, whatever the order answers: each step of it takes
items from one place and puts them in another, so that what is sorted is a permutation of
the items (`Sorting.sort_perm`).
-/

namespace Whittle.Sorting

open List

variable {α β γ ε : Type} {below : α → α → Except ε Bool}

def Yields (result : Except ε β) (such : β → Prop) : Prop :=
  ∀ answer, result = .ok answer → such answer

namespace Yields

variable {such : β → Prop}

theorem pure {answer : β} (is : such answer) : Yields (Pure.pure answer : Except ε β) such := by
  rintro _ ⟨⟩
  exact is

theorem bind {first : Except ε γ} {next : γ → Except ε β} {between : γ → Prop}
    (yields : Yields first between) (then' : ∀ answer, between answer → Yields (next answer) such) :
    Yields (first >>= next) such := by
  intro answer found
  obtain ⟨middle, came, found⟩ := bind_eq_ok_iff.mp found
  exact then' middle (yields middle came) answer found

/-- What comes after a question whose answer does not matter. -/
theorem after {first : Except ε γ} {next : γ → Except ε β}
    (then' : ∀ answer, Yields (next answer) such) : Yields (first >>= next) such :=
  bind (fun _ _ => trivial : Yields first fun _ => True) fun answer _ => then' answer

theorem ite {condition : Prop} [Decidable condition] {yes no : Except ε β}
    (whenSo : Yields yes such) (whenNot : Yields no such) :
    Yields (if condition then yes else no) such := by
  split
  · exact whenSo
  · exact whenNot

end Yields

/-- The items of an array up to a place, and those from there up to another. -/
theorem take_append_extract (items : Array α) {start stop : Nat} (ahead : start ≤ stop) :
    items.toList.take start ++ (items.extract start stop).toList = items.toList.take stop := by
  rw [Array.toList_extract, extract_eq_take_drop, ← take_add, Nat.add_sub_cancel' ahead]

theorem toList_extract_zero (items : Array α) (stop : Nat) :
    (items.extract 0 stop).toList = items.toList.take stop :=
  take_append_extract items (Nat.zero_le stop)

theorem toList_extract_size (items : Array α) (start : Nat) :
    (items.extract start items.size).toList = items.toList.drop start := by
  rw [Array.toList_extract, extract_eq_take_drop]
  exact take_of_length_le (by simp)

/-! ### Merging from the front -/

/-- What is taken of two runs is what comes first in them. -/
structure Front.Of (front : Front α) (left right : Array α) : Prop where
  fromLeft : front.left = left
  fromRight : front.right = right
  taken : front.merged.toList.Perm
    (left.toList.take front.fromLeft ++ right.toList.take front.fromRight)

namespace Front.Of

variable {front : Front α} {left right : Array α}

section

variable (of : front.Of left right)

include of

theorem takeLeft (count : Nat) : (front.takeLeft count).Of left right where
  fromLeft := of.fromLeft
  fromRight := of.fromRight
  taken := by
    simp only [Front.takeLeft, Array.toList_append, of.fromLeft]
    rw [← take_append_extract left (Nat.le_add_right front.fromLeft count)]
    refine (of.taken.append_right _).trans ?_
    rw [append_assoc, append_assoc]
    exact perm_append_comm.append_left _

theorem takeRight (count : Nat) : (front.takeRight count).Of left right where
  fromLeft := of.fromLeft
  fromRight := of.fromRight
  taken := by
    simp only [Front.takeRight, Array.toList_append, of.fromRight]
    rw [← take_append_extract right (Nat.le_add_right front.fromRight count), ← append_assoc]
    exact of.taken.append_right _

theorem patience (patience : Nat) : { front with patience }.Of left right :=
  ⟨of.fromLeft, of.fromRight, of.taken⟩

theorem advance {fuel : Nat} {manner : Manner} :
    Yields (front.advance below fuel manner) (·.Of left right) := by
  induction fuel generalizing manner front with
  | zero => exact .pure of
  | succ fuel ih =>
    cases manner with
    | oneByOne lefts rights =>
      refine .after fun first => .ite ?_ ?_
      · have taken := of.takeRight 1
        exact .ite (.pure taken) (.ite (ih (taken.patience _)) (ih taken))
      · have taken := of.takeLeft 1
        exact .ite (.pure taken) (.ite (ih (taken.patience _)) (ih taken))
    | leaping =>
      refine .after fun lefts => ?_
      have leapt := (of.patience (max 1 (front.patience - 1))).takeLeft lefts
      refine .ite (.pure leapt) ?_
      have taken := leapt.takeRight 1
      refine .ite (.pure taken) (.after fun rights => ?_)
      have leapt := taken.takeRight rights
      refine .ite (.pure leapt) ?_
      have taken := leapt.takeLeft 1
      exact .ite (.pure taken) (.ite (ih taken) (ih (taken.patience _)))

theorem finish : front.finish.toList.Perm (left.toList ++ right.toList) := by
  simp only [Front.finish, Array.toList_append, toList_extract_size, of.fromLeft, of.fromRight]
  refine ((of.taken.append_right _).append_right _).trans ?_
  rw [append_assoc (left.toList.take _), take_append_drop, append_assoc]
  refine (perm_append_comm.append_left _).trans ?_
  rw [← append_assoc, take_append_drop]

end

end Front.Of

theorem mergeFront_perm {patience : Nat} {left right : Array α} :
    Yields (mergeFront below patience left right)
      fun merged => merged.1.toList.Perm (left.toList ++ right.toList) := by
  have whole : ({ left, right, patience } : Front α).Of left right := ⟨rfl, rfl, by simp⟩
  have begun := whole.takeRight 1
  exact .ite (.pure begun.finish) (.bind begun.advance fun front of => .pure of.finish)

/-! ### Merging from the back -/

/-- What is taken of two runs is what comes last in them. -/
structure Back.Of (back : Back α) (left right : Array α) : Prop where
  fromLeft : back.left = left
  fromRight : back.right = right
  taken : (right.toList.take back.rightCount ++ left.toList.take back.leftCount ++ back.merged).Perm
    (left.toList ++ right.toList)

namespace Back.Of

variable {back : Back α} {left right : Array α}

section

variable (of : back.Of left right)

include of

theorem takeLeft (count : Nat) : (back.takeLeft count).Of left right where
  fromLeft := of.fromLeft
  fromRight := of.fromRight
  taken := by
    refine List.Perm.trans ?_ of.taken
    simp only [Back.takeLeft, of.fromLeft]
    rw [← take_append_extract left (Nat.sub_le back.leftCount count)]
    simp only [append_assoc, List.Perm.refl]

theorem takeRight (count : Nat) : (back.takeRight count).Of left right where
  fromLeft := of.fromLeft
  fromRight := of.fromRight
  taken := by
    refine List.Perm.trans ?_ of.taken
    simp only [Back.takeRight, of.fromRight]
    rw [← take_append_extract right (Nat.sub_le back.rightCount count)]
    simp only [append_assoc]
    refine List.Perm.append_left _ ?_
    rw [← append_assoc, ← append_assoc]
    exact perm_append_comm.append_right _

theorem patience (patience : Nat) : { back with patience }.Of left right :=
  ⟨of.fromLeft, of.fromRight, of.taken⟩

theorem advance {fuel : Nat} {manner : Manner} :
    Yields (back.advance below fuel manner) (·.Of left right) := by
  induction fuel generalizing manner back with
  | zero => exact .pure of
  | succ fuel ih =>
    cases manner with
    | oneByOne lefts rights =>
      refine .after fun first => .ite ?_ ?_
      · have taken := of.takeLeft 1
        exact .ite (.pure taken) (.ite (ih (taken.patience _)) (ih taken))
      · have taken := of.takeRight 1
        exact .ite (.pure taken) (.ite (ih (taken.patience _)) (ih taken))
    | leaping =>
      refine .after fun staying => ?_
      have leapt := (of.patience (max 1 (back.patience - 1))).takeLeft (back.leftCount - staying)
      refine .ite (.pure leapt) ?_
      have taken := leapt.takeRight 1
      refine .ite (.pure taken) (.after fun staying => .ite (.pure (taken.takeRight _)) ?_)
      have taken := fun count => (taken.takeRight count).takeLeft 1
      exact .ite (.pure (taken _)) (.ite (ih (taken _)) (ih ((taken _).patience _)))

theorem finish : back.finish.toList.Perm (left.toList ++ right.toList) := by
  simp only [Back.finish, Array.toList_append, toList_extract_zero, of.fromLeft, of.fromRight]
  exact of.taken

end

end Back.Of

theorem mergeBack_perm {patience : Nat} {left right : Array α} :
    Yields (mergeBack below patience left right)
      fun merged => merged.1.toList.Perm (left.toList ++ right.toList) := by
  have whole : ({ left, right, leftCount := left.size, rightCount := right.size, patience } :
      Back α).Of left right := by
    refine ⟨rfl, rfl, ?_⟩
    rw [take_of_length_le (by simp), take_of_length_le (by simp), append_nil]
    exact perm_append_comm
  have begun := whole.takeLeft 1
  exact .ite (.pure begun.finish) (.bind begun.advance fun back of => .pure of.finish)

/-! ### Runs -/

theorem merge_perm {patience : Nat} {left right : Array α} :
    Yields (merge below patience left right)
      fun merged => merged.1.toList.Perm (left.toList ++ right.toList) := by
  have whole : (left ++ right).toList.Perm (left.toList ++ right.toList) := by simp
  refine .after fun first => .ite (.pure whole) (.after fun last => .ite (.pure whole) ?_)
  have joined : ∀ middle : Array α × Nat, middle.1.toList.Perm
      ((left.extract first left.size).toList ++ (right.extract 0 last).toList) →
      (left.extract 0 first ++ middle.1 ++ right.extract last right.size).toList.Perm
        (left.toList ++ right.toList) := by
    intro middle perm
    simp only [Array.toList_append, toList_extract_zero, toList_extract_size] at perm ⊢
    refine ((perm.append_left _).append_right _).trans ?_
    rw [← append_assoc, take_append_drop, append_assoc, take_append_drop]
  exact .ite (.bind mergeFront_perm fun middle perm => .pure (joined middle perm))
    (.bind mergeBack_perm fun middle perm => .pure (joined middle perm))

theorem takeRun_perm {descending : Bool} {previous : α} {run items : List α} :
    Yields (takeRun below descending previous run items)
      fun taken => (taken.1 ++ taken.2).Perm (run ++ items) := by
  induction items generalizing previous run with
  | nil => exact .pure (List.Perm.refl _)
  | cons item rest ih =>
    refine .after fun first => .ite ?_ (.pure (List.Perm.refl _))
    intro taken found
    exact (ih taken found).trans perm_middle.symm

theorem length_of_takeRun {descending : Bool} {previous : α} {run items : List α} :
    Yields (takeRun below descending previous run items) fun taken => taken.2.length ≤ items.length := by
  induction items generalizing previous run with
  | nil => exact .pure (Nat.le_refl _)
  | cons item rest ih =>
    refine .after fun first => .ite ?_ (.pure (Nat.le_refl _))
    intro taken found
    exact Nat.le_succ_of_le (ih taken found)

theorem nextRun_perm {first : α} {rest : List α} :
    Yields (nextRun below (first :: rest))
      fun taken => (taken.1 ++ taken.2).Perm (first :: rest) ∧ taken.2.length ≤ rest.length := by
  cases rest with
  | nil => exact .pure ⟨List.Perm.refl _, Nat.le_refl _⟩
  | cons second rest =>
    refine .after fun descending => ?_
    have perm : Yields (takeRun below descending second [second, first] rest) fun taken =>
        (taken.1 ++ taken.2).Perm (first :: second :: rest) ∧ taken.2.length ≤ rest.length :=
      fun taken found => ⟨(takeRun_perm taken found).trans (.swap first second rest),
        length_of_takeRun taken found⟩
    refine .bind perm fun taken is => .pure ⟨?_, Nat.le_succ_of_le is.2⟩
    split
    · exact is.1
    · exact ((reverse_perm _).append_right _).trans is.1

theorem insertAll_perm {sorted : Array α} {items : List α} :
    Yields (insertAll below sorted items) fun filled => filled.toList.Perm (sorted.toList ++ items) := by
  induction items generalizing sorted with
  | nil => exact .pure (by simp)
  | cons pivot rest ih =>
    refine .after fun place filled found => (ih filled found).trans ?_
    simp only [Array.toList_append, Array.toList_push, toList_extract_zero, toList_extract_size,
      append_assoc, singleton_append]
    calc sorted.toList.take place ++ pivot :: (sorted.toList.drop place ++ rest)
      _ |>.Perm (pivot :: (sorted.toList.take place ++ (sorted.toList.drop place ++ rest))) :=
        perm_middle
      _ = pivot :: (sorted.toList ++ rest) := by rw [← append_assoc, take_append_drop]
      _ |>.Perm (sorted.toList ++ pivot :: rest) := perm_middle.symm

/-! ### All runs -/

def itemsOf (runs : List (Run α)) : List α :=
  runs.reverse.flatMap fun run => run.items.toList

theorem itemsOf_cons (run : Run α) (runs : List (Run α)) :
    itemsOf (run :: runs) = itemsOf runs ++ run.items.toList := by
  simp [itemsOf]

def Sorts (step : Sorter ε β) (such : β → Prop) : Prop :=
  ∀ patience, Yields (step.run patience) fun answer => such answer.1

namespace Sorts

theorem pure {answer : β} {such : β → Prop} (is : such answer) :
    Sorts (Pure.pure answer : Sorter ε β) such :=
  fun _ => Yields.pure is

theorem bind {first : Sorter ε γ} {next : γ → Sorter ε β} {between : γ → Prop} {such : β → Prop}
    (sorts : Sorts first between) (then' : ∀ answer, between answer → Sorts (next answer) such) :
    Sorts (first >>= next) such :=
  fun patience => (sorts patience).bind fun answer is => then' answer.1 is answer.2

theorem imp {step : Sorter ε β} {such such' : β → Prop} (sorts : Sorts step such)
    (so : ∀ answer, such answer → such' answer) : Sorts step such' :=
  fun patience answer found => so answer.1 (sorts patience answer found)

theorem lift {result : Except ε β} {such : β → Prop} (yields : Yields result such) :
    Sorts (liftM result : Sorter ε β) such :=
  fun _ => yields.bind fun _ is => Yields.pure is

end Sorts

theorem join_perm (left right : Run α) :
    Sorts (join below left right) fun joined =>
      joined.items.toList.Perm (left.items.toList ++ right.items.toList) :=
  fun _ => merge_perm.bind fun _ perm => .pure perm

theorem mergeDeeper_perm {depth : Nat} (runs : List (Run α)) :
    Sorts (mergeDeeper below depth runs) fun merged =>
      (itemsOf merged).Perm (itemsOf runs) ∧ (runs ≠ [] → merged ≠ []) := by
  induction count : runs.length using Nat.strongRecOn generalizing runs with
  | ind count ih =>
    unfold mergeDeeper
    split
    · next last before others =>
      split
      · refine (join_perm before last).bind fun joined perm => ?_
        refine (ih _ (by simp [← count]) (joined :: others) rfl).imp fun merged is =>
          ⟨is.1.trans ?_, fun _ => is.2 (by simp)⟩
        rw [itemsOf_cons, itemsOf_cons, itemsOf_cons, append_assoc]
        exact perm.append_left _
      · exact .pure ⟨.refl _, id⟩
    · exact .pure ⟨.refl _, id⟩

theorem addRun_perm {total : Nat} {run : Array α} {runs : List (Run α)} :
    Sorts (addRun below total run runs) fun added =>
      (itemsOf added).Perm (itemsOf runs ++ run.toList) := by
  unfold addRun
  split
  · exact .pure (by simp [itemsOf])
  · next last others =>
    refine (mergeDeeper_perm (last :: others)).bind fun merged is => ?_
    split
    · exact absurd rfl (is.2 (by simp))
    · next top others' =>
      refine .pure ?_
      rw [itemsOf_cons, itemsOf_cons]
      have same := is.1
      rw [itemsOf_cons] at same
      exact same.append_right _

/-- Every run takes at least one item, so that there are turns enough for all of them. -/
theorem addRuns_perm {total fuel : Nat} {runs : List (Run α)} {items : List α}
    (enough : items.length ≤ fuel) :
    Sorts (addRuns below total fuel runs items) fun added =>
      (itemsOf added).Perm (itemsOf runs ++ items) := by
  induction fuel generalizing runs items with
  | zero =>
    cases length_eq_zero_iff.mp (Nat.le_zero.mp enough)
    exact .pure (by simp)
  | succ fuel ih =>
    cases items with
    | nil => exact .pure (by simp)
    | cons first rest =>
      refine (Sorts.lift nextRun_perm).bind fun taken is => ?_
      refine (Sorts.lift insertAll_perm).bind fun filled perm => ?_
      refine addRun_perm.bind fun added perm' => ?_
      have shorter : (taken.2.drop (leastRun total - taken.1.length)).length ≤ fuel := by
        rw [length_drop]
        rw [length_cons] at enough
        omega
      refine (ih shorter).imp fun all found => found.trans ?_
      calc itemsOf added ++ taken.2.drop (leastRun total - taken.1.length)
        _ |>.Perm (itemsOf runs ++ filled.toList ++ taken.2.drop (leastRun total - taken.1.length)) :=
          perm'.append_right _
        _ |>.Perm (itemsOf runs ++ (taken.1.toArray.toList ++
            taken.2.take (leastRun total - taken.1.length)) ++
              taken.2.drop (leastRun total - taken.1.length)) :=
          (perm.append_left _).append_right _
        _ = itemsOf runs ++ (taken.1 ++ taken.2) := by
          rw [append_assoc, append_assoc, take_append_drop]
        _ |>.Perm (itemsOf runs ++ first :: rest) := is.1.append_left _

theorem mergeAll_perm (runs : List (Run α)) :
    Sorts (mergeAll below runs) fun merged => merged.toList.Perm (itemsOf runs) := by
  induction count : runs.length using Nat.strongRecOn generalizing runs with
  | ind count ih =>
    unfold mergeAll
    split
    · exact .pure (by simp [itemsOf])
    · exact .pure (by simp [itemsOf])
    · next last before =>
      refine (join_perm before last).bind fun joined perm => .pure ?_
      simpa [itemsOf] using perm
    · next last before earlier others =>
      split
      · refine (join_perm earlier before).bind fun joined perm => ?_
        refine (ih _ (by simp [← count]) (last :: joined :: others) rfl).imp fun merged is =>
          is.trans ?_
        simp only [itemsOf_cons, append_assoc]
        rw [← append_assoc earlier.items.toList]
        exact (perm.append_right _).append_left _
      · refine (join_perm before last).bind fun joined perm => ?_
        refine (ih _ (by simp [← count]) (joined :: earlier :: others) rfl).imp fun merged is =>
          is.trans ?_
        simp only [itemsOf_cons, append_assoc]
        exact (perm.append_left _).append_left _

/-- Sorting loses no items and makes none up. -/
theorem sort_perm {items sorted : List α} (found : sort below items = .ok sorted) :
    sorted.Perm items := by
  obtain ⟨merged, came, found⟩ := bind_eq_ok_iff.mp found
  cases found
  have sorts : Sorts (do mergeAll below (← addRuns below items.length items.length [] items))
      fun merged => merged.toList.Perm items :=
    (addRuns_perm (Nat.le_refl _)).bind fun runs perm =>
      (mergeAll_perm runs).imp fun merged is => is.trans perm
  obtain ⟨answer, ran, came⟩ := bind_eq_ok_iff.mp came
  cases came
  exact sorts leapLength answer ran

end Whittle.Sorting
