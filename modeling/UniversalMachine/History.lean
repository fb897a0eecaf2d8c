/-
  UniversalMachine.History

  The snapshots kept for undoing, within a bound on the memory they count for.
  Room for a new snapshot is made by forgetting the oldest.
-/

import UniversalMachine.Snapshot

namespace UniversalMachine

/-- A snapshot that would not fit even into an empty history. -/
structure HistoryError where
  size : Nat
  limit : Nat
  deriving DecidableEq, Repr

/-- The wording of a refused snapshot. -/
def HistoryError.message (error : HistoryError) : String :=
  let size := error.size
  let limit := error.limit
  s!"Snapshot of {size} bytes exceeds the history limit of {limit}"

/-- Kept snapshots, the oldest first. -/
structure History where
  limit : Nat
  snapshots : List Snapshot := []
  /-- The memory all kept snapshots count for. -/
  usage : Nat := 0
  deriving DecidableEq

namespace History

/-- A history that may count for up to `limit` bytes, with nothing kept. -/
def empty (limit : Nat) : History := { limit }

/-- How many snapshots are kept. -/
def size (h : History) : Nat :=
  h.snapshots.length

/-- Whether nothing is kept. -/
def isEmpty (h : History) : Bool :=
  h.snapshots.isEmpty

/-- The newest snapshot. -/
def latest? (h : History) : Option Snapshot :=
  h.snapshots.getLast?

/-- Forgets the oldest snapshots until `room` more bytes fit under the limit. -/
def evict (limit room : Nat) : List Snapshot → (usage : Nat) → List Snapshot × Nat
  | [], usage => ([], usage)
  | oldest :: rest, usage =>
    if usage + room > limit then evict limit room rest (usage - oldest.estimatedSize)
    else (oldest :: rest, usage)

/-- Keeps a snapshot, forgetting the oldest ones that leave no room for it. -/
def push (h : History) (s : Snapshot) : Except HistoryError History :=
  if s.estimatedSize > h.limit then .error { size := s.estimatedSize, limit := h.limit }
  else
    let (snapshots, usage) := evict h.limit s.estimatedSize h.snapshots h.usage
    .ok { h with snapshots := snapshots ++ [s], usage := usage + s.estimatedSize }

/-- Takes out the newest snapshot. -/
def pop? (h : History) : Option (Snapshot × History) :=
  match h.snapshots.getLast? with
  | none => none
  | some s =>
    some (s, { h with snapshots := h.snapshots.dropLast, usage := h.usage - s.estimatedSize })

end History

end UniversalMachine
