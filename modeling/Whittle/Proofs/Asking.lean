import Mathlib.Data.List.Forall2
import Whittle.Proofs.Step

/-!
Questions about the items of a list, one after the other. All answers are there if each item
has one (`mapM_eq_ok_iff_forall₂`), and the first item without one decides how it fails
(`mapM_eq_error_iff`); and so for the questions which items to keep (`mem_of_filterM`).
-/

namespace Whittle

open List

section Both

variable {ε α β γ : Type} {first : Except ε α} {second : Except ε β} {join : α → β → γ}

theorem both_eq_ok_iff {answer : γ} :
    (do return join (← first) (← second)) = Except.ok answer ↔
      ∃ one other, first = .ok one ∧ second = .ok other ∧ answer = join one other := by
  rcases first with _ | _ <;> rcases second with _ | _ <;>
    simp [bind, Except.bind, pure, Except.pure, eq_comm]

theorem both_eq_error_iff {fault : ε} :
    (do return join (← first) (← second)) = Except.error fault ↔
      first = .error fault ∨ ∃ one, first = .ok one ∧ second = .error fault := by
  rcases first with _ | _ <;> rcases second with _ | _ <;>
    simp [bind, Except.bind, pure, Except.pure]

end Both

section MapM

variable {ε α β : Type} {ask : α → Except ε β} {items : List α} {answers : List β}

theorem mapM_cons_eq_ok_iff {item : α} :
    (item :: items).mapM ask = .ok answers ↔
      ∃ first rest, ask item = .ok first ∧ items.mapM ask = .ok rest ∧ answers = first :: rest := by
  rw [mapM_cons, both_eq_ok_iff]

theorem mapM_eq_ok_iff_forall₂ :
    items.mapM ask = .ok answers ↔
      List.Forall₂ (fun item answer => ask item = .ok answer) items answers := by
  induction items generalizing answers with
  | nil =>
    rw [forall₂_nil_left_iff]
    exact ⟨fun all => by cases all; rfl, fun none => by rw [none]; rfl⟩
  | cons item rest ih =>
    rw [mapM_cons_eq_ok_iff, forall₂_cons_left_iff]
    simp only [ih]

theorem mapM_eq_ok_iff_map : items.mapM ask = .ok answers ↔ items.map ask = answers.map .ok := by
  rw [mapM_eq_ok_iff_forall₂, ← forall₂_eq_eq_eq, forall₂_map_left_iff,
    forall₂_map_right_iff]

section

variable (all : items.mapM ask = .ok answers)

include all

theorem forall_of_mapM : ∀ answer ∈ answers, ∃ item ∈ items, ask item = .ok answer := by
  intro answer member
  have member : Except.ok answer ∈ answers.map (.ok : β → Except ε β) := mem_map_of_mem member
  rwa [← mapM_eq_ok_iff_map.mp all, mem_map] at member

theorem exists_of_mapM : ∀ item ∈ items, ∃ answer ∈ answers, ask item = .ok answer := by
  intro item member
  have member := mem_map_of_mem (f := ask) member
  rw [mapM_eq_ok_iff_map.mp all, mem_map] at member
  simpa only [eq_comm] using member

end

theorem map_of_mapM {γ : Type} {tells : β → γ} {of : α → γ}
    (each : ∀ item ∈ items, ∀ answer, ask item = .ok answer → tells answer = of item)
    (all : items.mapM ask = .ok answers) : answers.map tells = items.map of := by
  induction items generalizing answers with
  | nil =>
    cases all
    rfl
  | cons item items ih =>
    obtain ⟨first, rest, found, later, rfl⟩ := mapM_cons_eq_ok_iff.mp all
    rw [map_cons, map_cons, each item mem_cons_self first found,
      ih (forall_mem_cons.mp each).2 later]

theorem mapM_eq_ok {answer : α → β}
    (all : ∀ item ∈ items, ask item = .ok (answer item)) :
    items.mapM ask = .ok (items.map answer) := by
  rw [mapM_eq_ok_iff_map, map_map]
  exact map_congr_left all

/-- Asking about some items fails as the first of them does that has no answer. -/
theorem mapM_eq_error_iff {fault : ε} : items.mapM ask = .error fault ↔
    ∃ before item after answers, items = before ++ item :: after ∧
      before.mapM ask = .ok answers ∧ ask item = .error fault := by
  constructor
  · intro fails
    induction items with
    | nil => cases fails
    | cons item rest ih =>
      rw [mapM_cons, both_eq_error_iff] at fails
      rcases fails with first | ⟨answer, first, later⟩
      · exact ⟨[], item, rest, [], rfl, rfl, first⟩
      · obtain ⟨before, other, after, answers, rfl, all, found⟩ := ih later
        refine ⟨item :: before, other, after, answer :: answers, rfl, ?_, found⟩
        exact mapM_cons_eq_ok_iff.mpr ⟨answer, answers, first, all, rfl⟩
  · rintro ⟨before, item, after, answers, rfl, all, fails⟩
    rw [mapM_append, all, mapM_cons, fails]
    rfl

/-- An answer that only one item has comes only once. -/
theorem count_le_one_of_mapM [DecidableEq β] {answer : β} (all : items.mapM ask = .ok answers)
    (nodup : items.Nodup) (apart : ∀ item ∈ items, ∀ other ∈ items,
      ask item = .ok answer → ask other = .ok answer → item = other) : answers.count answer ≤ 1 := by
  induction items generalizing answers with
  | nil =>
    cases all
    exact Nat.zero_le 1
  | cons item rest ih =>
    obtain ⟨first, later, found, others, rfl⟩ := mapM_cons_eq_ok_iff.mp all
    rw [nodup_cons] at nodup
    rw [count_cons]
    split
    · next same =>
      rw [beq_iff_eq] at same
      refine Nat.le_of_eq (congrArg (· + 1) (count_eq_zero_of_not_mem fun member => ?_))
      obtain ⟨other, within, found'⟩ := forall_of_mapM others answer member
      have same := apart item mem_cons_self other (mem_cons_of_mem _ within) (same ▸ found) found'
      exact nodup.1 (same ▸ within)
    · exact ih others nodup.2 fun one within other within' => apart one (mem_cons_of_mem _ within)
        other (mem_cons_of_mem _ within')

end MapM

section FilterM

variable {ε α : Type} {ask : α → Except ε Bool} {items kept : List α} {item : α} {fault : ε}

theorem filterAuxM_append (before : List α) :
    items.filterAuxM ask before = (items.filterAuxM ask []).map (· ++ before) := by
  induction items generalizing before with
  | nil => rfl
  | cons item rest ih =>
    rw [filterAuxM, filterAuxM]
    cases ask item with
    | error => rfl
    | ok is =>
      change rest.filterAuxM ask (cond is (item :: before) before) =
        (rest.filterAuxM ask (cond is [item] [])).map (· ++ before)
      rw [ih, ih (cond is [item] [])]
      cases rest.filterAuxM ask [] with
      | error => rfl
      | ok kept => cases is <;> simp [Except.map]

theorem filterM_cons : (item :: items).filterM ask = (do
    let is ← ask item
    let kept ← items.filterM ask
    return cond is (item :: kept) kept) := by
  rw [filterM, filterAuxM, filterM]
  cases ask item with
  | error => rfl
  | ok is =>
    change (items.filterAuxM ask (cond is [item] []) >>= fun kept => pure kept.reverse) = _
    rw [filterAuxM_append]
    cases items.filterAuxM ask [] with
    | error => rfl
    | ok kept => cases is <;> simp [Except.map, bind, Except.bind, pure, Except.pure]

theorem filterM_cons_eq_ok_iff : (item :: items).filterM ask = .ok kept ↔
    ∃ is rest, ask item = .ok is ∧ items.filterM ask = .ok rest ∧
      kept = cond is (item :: rest) rest := by
  rw [filterM_cons, both_eq_ok_iff]

theorem filterM_eq_error (fails : items.filterM ask = .error fault) :
    ∃ item ∈ items, ask item = .error fault := by
  induction items with
  | nil => cases fails
  | cons item rest ih =>
    rw [filterM_cons, both_eq_error_iff] at fails
    rcases fails with first | ⟨-, -, later⟩
    · exact ⟨item, mem_cons_self, first⟩
    · obtain ⟨other, member, found⟩ := ih later
      exact ⟨other, mem_cons_of_mem _ member, found⟩

theorem mem_of_filterM (all : items.filterM ask = .ok kept) :
    (∀ item ∈ items, ∃ is, ask item = .ok is) ∧
      ∀ item, item ∈ kept ↔ item ∈ items ∧ ask item = .ok true := by
  induction items generalizing kept with
  | nil =>
    cases all
    simp
  | cons first rest ih =>
    obtain ⟨is, later, asked, found, rfl⟩ := filterM_cons_eq_ok_iff.mp all
    obtain ⟨others, members⟩ := ih found
    refine ⟨by simpa [asked] using others, fun item => ?_⟩
    rw [mem_cons]
    cases is with
    | true => grind
    | false => grind

theorem sublist_of_filterM (all : items.filterM ask = .ok kept) : kept.Sublist items := by
  induction items generalizing kept with
  | nil =>
    cases all
    exact .slnil
  | cons first rest ih =>
    obtain ⟨is, later, -, found, rfl⟩ := filterM_cons_eq_ok_iff.mp all
    cases is with
    | true => exact (ih found).cons_cons first
    | false => exact (ih found).cons first

end FilterM

end Whittle
