/-
  UniversalMachine.Proofs.Eviction

  What a history forgets to make room.

  What is forgotten are the oldest snapshots (`History.evict_suffix`). The history
  decides by a running account; as long as the account is the sum of the sizes of what
  is kept (`History.totalSize`), it still is when room has been made
  (`History.evict_account`).
-/

import Mathlib.Algebra.GroupWithZero.Nat
import UniversalMachine.History

namespace UniversalMachine.History

/-! ## Sizes -/

/-- What snapshots count for, all together. -/
def totalSize (snapshots : List Snapshot) : Nat :=
  (snapshots.map Snapshot.estimatedSize).sum

@[simp]
theorem totalSize_nil : totalSize [] = 0 := rfl

@[simp]
theorem totalSize_cons (snapshot : Snapshot) (snapshots : List Snapshot) :
    totalSize (snapshot :: snapshots) = snapshot.estimatedSize + totalSize snapshots :=
  List.sum_cons

@[simp]
theorem totalSize_concat (snapshots : List Snapshot) (snapshot : Snapshot) :
    totalSize (snapshots ++ [snapshot]) = totalSize snapshots + snapshot.estimatedSize := by
  simp [totalSize]

/-! ## Making room -/

theorem evict_suffix (limit room : Nat) (snapshots : List Snapshot) (usage : Nat) :
    (evict limit room snapshots usage).1 <:+ snapshots := by
  induction snapshots generalizing usage with
  | nil => exact List.suffix_refl []
  | cons oldest rest ih =>
    rw [evict]
    split
    · exact (ih _).trans (List.suffix_cons oldest rest)
    · exact List.suffix_refl _

/-- The account follows what is forgotten. -/
theorem evict_account (limit room : Nat) (snapshots : List Snapshot) :
    (evict limit room snapshots (totalSize snapshots)).2 =
      totalSize (evict limit room snapshots (totalSize snapshots)).1 := by
  induction snapshots with
  | nil => rfl
  | cons oldest rest ih =>
    rw [evict]
    by_cases hover : totalSize (oldest :: rest) + room > limit
    · rw [if_pos hover, totalSize_cons, Nat.add_sub_cancel_left]
      exact ih
    · rw [if_neg hover]

/-! ## Adding and taking out -/

variable {h : History} {s : Snapshot}

theorem push_of_large (hlarge : h.limit < s.estimatedSize) :
    h.push s = .error { size := s.estimatedSize, limit := h.limit } :=
  if_pos hlarge

/-- A snapshot that is not larger than the limit becomes the newest one; some of the older
    ones stay. -/
theorem push_of_fits (hfits : s.estimatedSize ≤ h.limit) :
    ∃ older usage, older <:+ h.snapshots ∧
      h.push s = .ok { limit := h.limit, snapshots := older ++ [s], usage } := by
  have hsmall : ¬s.estimatedSize > h.limit := Nat.not_lt.2 hfits
  refine ⟨_, (evict h.limit s.estimatedSize h.snapshots h.usage).2 + s.estimatedSize,
    evict_suffix h.limit s.estimatedSize h.snapshots h.usage, ?_⟩
  rw [push, if_neg hsmall]

theorem pop?_concat {older : List Snapshot} {newest : Snapshot}
    (hlast : h.snapshots = older ++ [newest]) :
    h.pop? = some (newest,
      { h with snapshots := older, usage := h.usage - newest.estimatedSize }) := by
  rw [pop?, hlast, List.getLast?_concat, List.dropLast_concat]

end UniversalMachine.History
