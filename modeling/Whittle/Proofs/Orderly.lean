import Whittle.Proofs.Outcome

/-!
Order in a run. Whatever a run does, no place of its disk is taken twice
(`Disk.isLasting_isDistinct`), and only going back to a snapshot fails for want of one
(`Host.Admits.isOrdinary`).
-/

namespace Whittle

open List

variable {titles : List String} {failure : Failure}

/-! ### Disks -/

namespace Disk

def IsDistinct (disk : Disk) : Prop :=
  (disk.entries.map Prod.fst).Nodup

variable {disk after : Disk} {place : Place} {entry : Entry} {path : Path}

namespace IsDistinct

variable (distinct : disk.IsDistinct)

include distinct

theorem filter (kept : Place × Entry → Bool) : ((disk.entries.filter kept).map Prod.fst).Nodup :=
  distinct.sublist (filter_sublist.map _)

theorem put (place : Place) (entry : Entry) : (disk.put place entry).IsDistinct := by
  refine nodup_cons.mpr ⟨fun member => ?_, distinct.filter _⟩
  obtain ⟨other, listed, same⟩ := mem_map.mp member
  have apart := (mem_filter.mp listed).2
  rw [(isPlace_length_iff place other.1).mpr same] at apart
  cases apart

theorem erase (place : Place) : (disk.erase place).IsDistinct :=
  distinct.filter _

theorem eraseTree (place : Place) : (disk.eraseTree place).IsDistinct :=
  distinct.filter _

theorem moveTree (source target : Place) : (disk.moveTree source target).IsDistinct := by
  have moved : ((disk.entries.filter fun entry => source.isPrefixOf entry.1).map fun entry =>
      target ++ entry.1.drop source.length).Nodup := by
    have once := distinct.filter fun entry => source.isPrefixOf entry.1
    rw [List.Nodup, pairwise_map] at once ⊢
    refine once.imp_of_mem fun {one other} member member' differ same => differ ?_
    obtain ⟨more, whole⟩ := isPrefixOf_iff_prefix.mp (mem_filter.mp member).2
    obtain ⟨more', whole'⟩ := isPrefixOf_iff_prefix.mp (mem_filter.mp member').2
    rw [← whole, ← whole', drop_left, drop_left] at same
    rw [← whole, ← whole', append_cancel_left same]
  rw [IsDistinct, Disk.moveTree, map_append, map_map]
  refine nodup_append.mpr ⟨moved, distinct.filter _, ?_⟩
  rintro _ came _ stayed rfl
  obtain ⟨one, -, same⟩ := mem_map.mp came
  obtain ⟨other, listed, same'⟩ := mem_map.mp stayed
  have apart := (mem_filter.mp listed).2
  have below : target.isPrefixOf other.1 = true := by
    rw [same', ← same]
    exact isPrefixOf_iff_prefix.mpr (prefix_append _ _)
  rw [below] at apart
  simp at apart

theorem alter {change : Contents → Contents}
    (altered : disk.alter path change = .ok after) : after.IsDistinct := by
  obtain ⟨place, contents, mode, -, -, rfl⟩ := of_alter altered
  exact distinct.put _ _

theorem setMode {mode : Nat} (done : disk.setMode path mode = .ok after) : after.IsDistinct := by
  obtain ⟨place, -, done⟩ := bind_eq_ok_iff.mp done
  split at done
  · cases done
    exact distinct.put _ _
  · cases done
    exact distinct
  · cases done

theorem makeDir (made : disk.makeDir path = .ok after) : after.IsDistinct := by
  obtain ⟨place, -, -, rfl⟩ := of_makeDir made
  exact distinct.put _ _

theorem makeDirs (existing : Bool) (path : Path) : (disk.makeDirs existing path).2.IsDistinct :=
  makeDirs_keeps (fun _ _ _ so made => so.makeDir made) distinct existing path

theorem removeIfPresent (removed : disk.removeIfPresent path = .ok after) : after.IsDistinct := by
  unfold Disk.removeIfPresent at removed
  split at removed
  · cases removed
    exact distinct
  · obtain ⟨place, -, removed⟩ := bind_eq_ok_iff.mp removed
    split at removed
    · cases removed
    · cases removed
    · cases removed
      exact distinct.erase _

theorem removeTree (removed : disk.removeTree path = .ok after) : after.IsDistinct := by
  obtain ⟨place, -, rfl⟩ := of_removeTree removed
  exact distinct.eraseTree _

theorem move {old new : Place} (moved : disk.move old new = .ok after) : after.IsDistinct := by
  rcases of_move moved with rfl | rfl | ⟨entry, -, rfl⟩
  · exact distinct
  · exact distinct.moveTree _ _
  · exact (distinct.erase _).put _ _

theorem rename {target : Path}
    (renamed : disk.rename path target = .ok after) : after.IsDistinct := by
  obtain ⟨-, old, new, -, -, moved⟩ := of_rename renamed
  exact distinct.move moved

end IsDistinct

theorem isLasting_isDistinct : IsLasting IsDistinct where
  alter _ distinct := distinct.alter
  makeDirs existing _ distinct := distinct.makeDirs existing _
  removeTree _ distinct := distinct.removeTree
  rename _ _ distinct := distinct.rename
  setMode distinct := distinct.setMode
  removeIfPresent distinct := distinct.removeIfPresent

end Disk

/-! ### Failures -/

/-- Whether a failure is other than not to be able to go on from a snapshot. -/
def Failure.isOrdinary : Failure → Bool
  | .resume _ => false
  | _ => true

/-- The driver leaves the disk as it finds it, and does not fail for want of a snapshot. -/
structure Host.IsStill (host : Host) : Prop where
  disk : ∀ root driver count disk, (host.launch root driver count disk).disk = disk
  ordinary : ∀ root driver count disk failure,
    (host.launch root driver count disk).start = .failed failure → failure.isOrdinary = true

theorem Failure.isOrdinary_of_isAmong (among : failure.IsAmong titles)
    (apart : "ResumeError" ∉ titles) : failure.isOrdinary = true := by
  cases failure with
  | resume fault => exact absurd (among _ rfl) apart
  | _ => rfl

theorem Failure.isOrdinary_of_untitled (untitled : failure.title? = none) :
    failure.isOrdinary = true :=
  isOrdinary_of_isAmong (isAmong_of_none untitled) not_mem_nil

theorem Host.Admits.isOrdinary {host : Host} (admits : host.Admits titles failure)
    (still : host.IsStill) (apart : "ResumeError" ∉ titles) : failure.isOrdinary = true := by
  rcases admits with ⟨_, _, _, _, starts⟩ | among
  · exact still.ordinary _ _ _ _ _ starts
  · exact Failure.isOrdinary_of_isAmong among apart

end Whittle
