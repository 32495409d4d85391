import Whittle.Listing

/-!
What a listing has under a name after a change, and which names it has. In a listing that
has each name once, what stands under a name is what is listed with it.
-/

namespace Whittle

open List

namespace Listing

variable {α β : Type} {listing : Listing α} {name other : String} {thing : α}

def IsProper (listing : Listing α) : Prop :=
  (names listing).Nodup

@[simp] theorem get?_nil (name : String) : get? ([] : Listing α) name = none :=
  rfl

theorem get?_cons (entry : String × α) (rest : Listing α) (name : String) :
    get? (entry :: rest) name = if entry.1 = name then some entry.2 else get? rest name := by
  obtain ⟨key, value⟩ := entry
  by_cases same : name = key
  · simp [get?, same]
  · have differs : (name == key) = false := by simpa using same
    simp [get?, lookup_cons, differs, Ne.symm same]

/-- What becomes of a thing may depend on its name. -/
theorem get?_map_named (change : String → α → β) (listing : Listing α) (name : String) :
    get? (listing.map fun entry => (entry.1, change entry.1 entry.2)) name =
      (get? listing name).map (change name) := by
  induction listing with
  | nil => rfl
  | cons entry rest ih =>
    rw [map_cons, get?_cons, get?_cons, ih]
    split
    · next same => rw [same, Option.map_some]
    · rfl

@[simp] theorem get?_map (change : α → β) (listing : Listing α) (name : String) :
    get? (listing.map fun entry => (entry.1, change entry.2)) name =
      (get? listing name).map change :=
  get?_map_named (fun _ => change) listing name

theorem get?_set (listing : Listing α) (name : String) (thing : α) (other : String) :
    get? (set listing name thing) other = if other = name then some thing else get? listing other := by
  induction listing with
  | nil =>
    rw [set, get?_cons]
    simp [eq_comm]
  | cons entry rest ih =>
    rw [set]
    by_cases same : entry.1 = name
    · rw [if_pos same, get?_cons, get?_cons, same]
      by_cases asked : name = other
      · simp [asked]
      · simp [asked, Ne.symm asked]
    · rw [if_neg same, get?_cons, get?_cons, ih]
      by_cases asked : entry.1 = other
      · have : other ≠ name := asked ▸ same
        simp [asked, this]
      · simp [asked]

theorem get?_erase (listing : Listing α) (name other : String) :
    get? (erase listing name) other = if other = name then none else get? listing other := by
  induction listing with
  | nil => simp [erase]
  | cons entry rest ih =>
    rw [erase] at ih ⊢
    by_cases same : entry.1 = name
    · rw [filter_cons_of_neg (by simp [same]), ih, get?_cons, same]
      by_cases asked : other = name
      · simp [asked]
      · simp [asked, Ne.symm asked]
    · rw [filter_cons_of_pos (by simp [same]), get?_cons, get?_cons, ih]
      by_cases asked : entry.1 = other
      · have : other ≠ name := asked ▸ same
        simp [asked, this]
      · simp [asked]

/-- What is under a name once changes lie over what was there: a new thing, nothing, or the old. -/
def overlay (changes : Listing (Option α)) (below : String → Option α) (name : String) : Option α :=
  match get? changes name with
  | some thing => thing
  | none => below name

theorem mem_names_iff : name ∈ names listing ↔ (get? listing name).isSome = true := by
  induction listing with
  | nil => simp [names]
  | cons entry rest ih =>
    rw [names] at ih ⊢
    rw [map_cons, mem_cons, ih, get?_cons]
    by_cases same : entry.1 = name
    · simp [same]
    · simp [same, Ne.symm same]

theorem get?_eq_none_iff : get? listing name = none ↔ name ∉ names listing := by
  rw [mem_names_iff]
  cases get? listing name <;> simp

theorem names_map (change : α → β) (listing : Listing α) :
    names (listing.map fun entry => (entry.1, change entry.2)) = names listing := by
  simp [names]

theorem get?_of_mem (proper : IsProper listing) (member : (name, thing) ∈ listing) :
    get? listing name = some thing := by
  induction listing with
  | nil => cases member
  | cons entry rest ih =>
    rw [IsProper, names, map_cons, nodup_cons] at proper
    rw [get?_cons]
    rcases mem_cons.mp member with rfl | later
    · simp
    · have apart : entry.1 ≠ name := fun same =>
        proper.1 (mem_map.mpr ⟨(name, thing), later, same.symm⟩)
      rw [if_neg apart]
      exact ih proper.2 later

theorem mem_of_get? (found : get? listing name = some thing) : (name, thing) ∈ listing := by
  induction listing with
  | nil => cases found
  | cons entry rest ih =>
    rw [get?_cons] at found
    split at found
    · next same =>
      cases found
      exact same ▸ mem_cons_self
    · exact mem_cons_of_mem _ (ih found)

/-! ### Changes keep a listing proper -/

theorem names_set (listing : Listing α) (name : String) (thing : α) :
    names (set listing name thing) =
      if name ∈ names listing then names listing else names listing ++ [name] := by
  induction listing with
  | nil => rfl
  | cons entry rest ih =>
    rw [set]
    by_cases same : entry.1 = name
    · simp [same, names]
    · rw [if_neg same]
      simp only [names, map_cons] at ih ⊢
      rw [ih]
      by_cases later : name ∈ rest.map Prod.fst <;> simp [later, Ne.symm same]

theorem IsProper.set (proper : IsProper listing) (name : String) (thing : α) :
    IsProper (set listing name thing) := by
  rw [IsProper, names_set]
  split
  · exact proper
  · next new =>
    rw [nodup_append]
    refine ⟨proper, by simp, ?_⟩
    rintro old member _ (_ | ⟨_, ⟨⟩⟩) rfl
    exact new member

theorem IsProper.filter (proper : IsProper listing) (kept : String × α → Bool) :
    IsProper (listing.filter kept) :=
  proper.sublist (filter_sublist.map _)

theorem IsProper.erase (proper : IsProper listing) (name : String) :
    IsProper (erase listing name) :=
  proper.filter _

theorem get?_ofList (pairs : List (String × α)) (name : String) :
    get? (ofList pairs) name = get? pairs.reverse name := by
  suffices grown : ∀ listing : Listing α,
      get? (pairs.foldl (fun listing pair => set listing pair.1 pair.2) listing) name =
        (get? pairs.reverse name).or (get? listing name) from
    (grown []).trans (Option.or_none)
  induction pairs with
  | nil => exact fun _ => rfl
  | cons pair rest ih =>
    intro listing
    have last : get? (pair :: rest).reverse name = (get? rest.reverse name).or (get? [pair] name) := by
      rw [reverse_cons, get?, lookup_append]
      rfl
    rw [foldl_cons, ih, get?_set, last, Option.or_assoc, get?_cons]
    by_cases same : name = pair.1
    · rw [if_pos same, if_pos same.symm, Option.some_or]
    · rw [if_neg same, if_neg (Ne.symm same), get?_nil, Option.none_or]

theorem isProper_ofList (pairs : List (String × α)) : IsProper (ofList pairs) := by
  suffices grown : ∀ listing : Listing α, IsProper listing →
      IsProper (pairs.foldl (fun listing pair => set listing pair.1 pair.2) listing) from
    grown [] nodup_nil
  induction pairs with
  | nil => exact fun _ => id
  | cons pair rest ih => exact fun listing proper => ih _ (proper.set pair.1 pair.2)

/-- Two listings that have the same under every name hold the same entries. -/
theorem perm_of_get? {listing other : Listing α} (proper : IsProper listing) (proper' : IsProper other)
    (same : ∀ name, get? listing name = get? other name) : listing.Perm other := by
  have once : ∀ {listing : Listing α}, IsProper listing → List.Nodup listing := fun proper =>
    (pairwise_map.mp proper).imp fun differ same => differ (congrArg Prod.fst same)
  refine (perm_ext_iff_of_nodup (once proper) (once proper')).mpr ?_
  rintro ⟨name, thing⟩
  constructor
  · exact fun member => mem_of_get? ((same name).symm.trans (get?_of_mem proper member))
  · exact fun member => mem_of_get? ((same name).trans (get?_of_mem proper' member))

end Listing

theorem insertBy_perm {before : α → α → Bool} (item : α) (items : List α) :
    (insertBy before item items).Perm (item :: items) := by
  induction items with
  | nil => exact .refl _
  | cons first rest ih =>
    rw [insertBy]
    split
    · exact (ih.cons first).trans (.swap item first rest)
    · exact .refl _

theorem sortBy_perm {before : α → α → Bool} (items : List α) : (sortBy before items).Perm items := by
  induction items with
  | nil => exact .refl _
  | cons first rest ih =>
    rw [sortBy, foldr_cons]
    exact (insertBy_perm first _).trans (ih.cons first)

theorem mem_sortBy {before : α → α → Bool} {item : α} {items : List α} :
    item ∈ sortBy before items ↔ item ∈ items :=
  (sortBy_perm items).mem_iff

section Order

variable {before : α → α → Bool} {le : α → α → Prop}
  (trans : ∀ first second third, le first second → le second third → le first third)
  (ahead : ∀ first second, before first second = true → le first second)
  (behind : ∀ first second, before first second = false → le second first)

include trans ahead behind

theorem pairwise_insertBy {item : α} {items : List α} (sorted : items.Pairwise le) :
    (insertBy before item items).Pairwise le := by
  induction items with
  | nil => exact pairwise_singleton _ _
  | cons first rest ih =>
    obtain ⟨least, later⟩ := pairwise_cons.mp sorted
    rw [insertBy]
    split
    · next is =>
      refine pairwise_cons.mpr ⟨fun other member => ?_, ih later⟩
      rcases mem_cons.mp ((insertBy_perm item rest).mem_iff.mp member) with rfl | old
      · exact ahead first other is
      · exact least other old
    · next not =>
      have below := behind first item (Bool.eq_false_iff.mpr not)
      refine pairwise_cons.mpr ⟨fun other member => ?_, sorted⟩
      rcases mem_cons.mp member with rfl | old
      · exact below
      · exact trans item first other below (least other old)

theorem pairwise_sortBy (items : List α) : (sortBy before items).Pairwise le := by
  induction items with
  | nil => exact List.Pairwise.nil
  | cons first rest ih => exact pairwise_insertBy trans ahead behind ih

end Order

@[simp] theorem mem_sortNames {name : String} {names : List String} :
    name ∈ sortNames names ↔ name ∈ names :=
  mem_sortBy

@[simp] theorem mem_sortUnique {name : String} {names : List String} :
    name ∈ sortUnique names ↔ name ∈ names := by
  simp [sortUnique]

theorem nodup_eraseDups (names : List String) : names.eraseDups.Nodup := by
  induction size : names.length using Nat.strongRecOn generalizing names with
  | ind size ih =>
    cases names with
    | nil => exact nodup_nil
    | cons name rest =>
      rw [eraseDups_cons]
      refine nodup_cons.mpr ⟨?_, ih _ ?_ _ rfl⟩
      · simp [mem_eraseDups]
      · have := length_filter_le (fun other => !other == name) rest
        simp only [length_cons] at size
        omega

theorem pairwise_sortNames (names : List String) : (sortNames names).Pairwise (· ≤ ·) := by
  rw [sortNames]
  apply pairwise_sortBy
  · exact fun first second third => String.le_trans
  · intro first second is
    exact String.not_lt.mp (String.lt_asymm (of_decide_eq_true is))
  · intro first second not
    exact String.not_lt.mp (of_decide_eq_false not)

/-- Names that come each once and in order are in ascending order. -/
theorem pairwise_lt_of_nodup {names : List String} (sorted : names.Pairwise (· ≤ ·))
    (once : names.Nodup) : names.Pairwise (· < ·) := by
  refine (sorted.and once).imp fun {first second} both => Decidable.byContradiction fun not => ?_
  exact both.2 (String.le_antisymm both.1 (String.not_lt.mp not))

theorem pairwise_sortUnique (names : List String) : (sortUnique names).Pairwise (· < ·) :=
  pairwise_lt_of_nodup (pairwise_sortNames _)
    ((sortBy_perm _).nodup_iff.mpr (nodup_eraseDups names))

end Whittle
