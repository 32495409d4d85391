import Whittle.Path
import Whittle.Sorting
import Whittle.Value.Convert

/-!
The order of values: numbers by value, texts by characters, paths by their parts,
bytes by number, days and moments by time, lists and pairs item by item, sets by
their members. Other values are not ordered, and sorting them fails at the first
comparison that has no answer.
-/

namespace Whittle.Value

mutual

def isBelow : Value → Value → Except Fault Bool
  | .text left, .text right => .ok (left < right)
  | .path left, .path right => .ok ((Path.ofText left).parts < (Path.ofText right).parts)
  | .list left, .list right => itemsBelow left right
  | .day left, .day right => .ok (left.number < right.number)
  | .stamp left, .stamp right =>
    if left.isComparable right then .ok (left.instant < right.instant) else .error .offsetMissing
  | .day _, .stamp _ | .stamp _, .day _ => .error .dayWithMoment
  | .bytes left, .bytes right => .ok (left < right)
  | .setOf left, .setOf right => .ok (left.length < right.length && allAmong left right)
  | .pair left first, .pair right second =>
    if !left.same right then left.isBelow right
    else if !first.same second then first.isBelow second
    else .ok false
  | left, right =>
    match left.number?, right.number? with
    | some first, some second => .ok (first.lt second)
    | _, _ => .error (.unordered .below left.kind right.kind)

/-- Whether a list is below another: at the first items that differ, else by length. -/
def itemsBelow : List Value → List Value → Except Fault Bool
  | [], rest => .ok !rest.isEmpty
  | _ :: _, [] => .ok false
  | left :: lefts, right :: rights =>
    if left.same right then itemsBelow lefts rights else left.isBelow right

end

def sort (values : List Value) : Except Fault (List Value) :=
  Sorting.sort isBelow values

def sortEntries {α : Type} (entries : List (Value × α)) : Except Fault (List (Value × α)) :=
  Sorting.sort (fun left right => left.1.isBelow right.1) entries

end Whittle.Value
