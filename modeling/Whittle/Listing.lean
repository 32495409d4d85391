/-!
Listings: things under names, each name once, in the order in which the names
first came. A later thing takes the place of an earlier one of its name.
-/

namespace Whittle

/-- Things under names. -/
abbrev Listing (α : Type) := List (String × α)

namespace Listing

variable {α : Type}

def get? (listing : Listing α) (name : String) : Option α :=
  listing.lookup name

def has (listing : Listing α) (name : String) : Bool :=
  (get? listing name).isSome

/-- Sets the thing of a name: in its place if the name is there, else at the end. -/
def set (listing : Listing α) (name : String) (thing : α) : Listing α :=
  match listing with
  | [] => [(name, thing)]
  | entry :: rest => if entry.1 = name then (name, thing) :: rest else entry :: set rest name thing

def erase (listing : Listing α) (name : String) : Listing α :=
  listing.filter (·.1 ≠ name)

/-- The listing of some pairs, in which a name may come more than once. -/
def ofList (pairs : List (String × α)) : Listing α :=
  pairs.foldl (fun listing pair => set listing pair.1 pair.2) []

def names (listing : Listing α) : List String :=
  listing.map Prod.fst

end Listing

def insertBy {α : Type} (before : α → α → Bool) (item : α) : List α → List α
  | [] => [item]
  | other :: rest =>
    if before other item then other :: insertBy before item rest else item :: other :: rest

/-- Items in order; of two that come before neither, the first stays first. -/
def sortBy {α : Type} (before : α → α → Bool) (items : List α) : List α :=
  items.foldr (insertBy before) []

def sortNames (names : List String) : List String :=
  sortBy (fun left right => left < right) names

def sortUnique (names : List String) : List String :=
  sortNames names.eraseDups

end Whittle
