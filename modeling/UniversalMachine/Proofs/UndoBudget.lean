/-
  UniversalMachine.Proofs.UndoBudget

  The history keeps the longest run of recent snapshots that fits.

  Beside its snapshots a history keeps a running account of what they count for, and
  only the account decides what has to go. As long as the account is the sum of the
  sizes and within the limit (`History.Sound`), making room forgets exactly as many
  of the oldest snapshots as it must: what is left fits, and every suffix that fits
  is part of it (`LongestFitting`). `evict?` makes room in the same way but gives up
  where the account would fall below zero or where nothing is left to forget; that it
  never gives up means that neither happens.
-/

import UniversalMachine.Proofs.CommandUndo

namespace UniversalMachine

/-- What can be asked of a history. -/
inductive HistoryOperation where
  | push (snapshot : Snapshot)
  | pop

namespace History

/-- Carries out an operation. A history that refuses a snapshot, or has none to give back, is
    used as it was. -/
def operate (h : History) : HistoryOperation → History
  | .push snapshot =>
    match h.push snapshot with
    | .ok h => h
    | .error _ => h
  | .pop =>
    match h.pop? with
    | some (_, h) => h
    | none => h

/-- Carries out operations one after the other. -/
def operateAll (h : History) (ops : List HistoryOperation) : History :=
  ops.foldl operate h

/-! ## What fits -/

/-- The longest suffix of some snapshots that leaves room for so many bytes under a limit. -/
structure LongestFitting (limit room : Nat) (snapshots kept : List Snapshot) : Prop where
  suffix : kept <:+ snapshots
  fits : totalSize kept + room ≤ limit
  longest {other : List Snapshot} :
    other <:+ snapshots → totalSize other + room ≤ limit → other <:+ kept

/-- Forgets the oldest snapshots as `evict` does, but gives up where there is none left to forget
    and where the account would fall below zero. -/
def evict? (limit room : Nat) : List Snapshot → (usage : Nat) → Option (List Snapshot × Nat)
  | [], usage => if usage + room > limit then none else some ([], usage)
  | oldest :: rest, usage =>
    if usage + room > limit then
      if oldest.estimatedSize ≤ usage then evict? limit room rest (usage - oldest.estimatedSize)
      else none
    else some (oldest :: rest, usage)

/-! ## Making room -/

/-- No more is forgotten than has to be, and no less. -/
theorem longestFitting_evict {limit room : Nat} (hroom : room ≤ limit) (snapshots : List Snapshot) :
    LongestFitting limit room snapshots (evict limit room snapshots (totalSize snapshots)).1 := by
  induction snapshots with
  | nil => exact ⟨List.suffix_refl _, by simpa [evict] using hroom, fun hother _ => hother⟩
  | cons oldest rest ih =>
    rw [evict]
    by_cases hover : totalSize (oldest :: rest) + room > limit
    · rw [if_pos hover, totalSize_cons, Nat.add_sub_cancel_left]
      refine ⟨ih.suffix.trans (List.suffix_cons oldest rest), ih.fits, ?_⟩
      intro other hother hfits
      -- all of them together do not fit, so what fits leaves the oldest out
      rcases List.suffix_cons_iff.1 hother with rfl | hrest
      · omega
      · exact ih.longest hrest hfits
    · rw [if_neg hover]
      exact ⟨List.suffix_refl _, Nat.not_lt.1 hover, fun hother _ => hother⟩

/-- The account never falls below zero, and there is always a snapshot left to forget. -/
theorem evict?_eq_some {limit room : Nat} (hroom : room ≤ limit) (snapshots : List Snapshot) :
    evict? limit room snapshots (totalSize snapshots) =
      some (evict limit room snapshots (totalSize snapshots)) := by
  induction snapshots with
  | nil =>
    have hfits : ¬totalSize [] + room > limit := by
      rw [totalSize_nil]
      omega
    rw [evict?, if_neg hfits]
    rfl
  | cons oldest rest ih =>
    rw [evict?, evict]
    by_cases hover : totalSize (oldest :: rest) + room > limit
    · have hcovered : oldest.estimatedSize ≤ totalSize (oldest :: rest) := by
        rw [totalSize_cons]
        omega
      rw [if_pos hover, if_pos hover, if_pos hcovered, totalSize_cons, Nat.add_sub_cancel_left]
      exact ih
    · rw [if_neg hover, if_neg hover]

/-! ## Sound histories -/

/-- The account is the sum of the sizes, and within the limit. -/
structure Sound (limit : Nat) (h : History) : Prop where
  limit_eq : h.limit = limit
  usage_eq : h.usage = totalSize h.snapshots
  usage_le : h.usage ≤ limit

theorem sound_empty (limit : Nat) : (empty limit).Sound limit :=
  ⟨rfl, rfl, Nat.zero_le _⟩

namespace Sound

variable {limit : Nat} {h : History}

theorem push_of_fits (hsound : h.Sound limit) {s : Snapshot} (hfits : s.estimatedSize ≤ limit) :
    ∃ kept, LongestFitting limit s.estimatedSize h.snapshots kept ∧
      h.push s = .ok { limit, snapshots := kept ++ [s], usage := totalSize (kept ++ [s]) } := by
  obtain ⟨rfl, husage, -⟩ := hsound
  refine ⟨_, longestFitting_evict hfits h.snapshots, ?_⟩
  have haccount := evict_account h.limit s.estimatedSize h.snapshots
  rw [push, if_neg (Nat.not_lt.2 hfits), husage, totalSize_concat, ← haccount]

theorem eq_of_push (hsound : h.Sound limit) {s : Snapshot} {h' : History}
    (hpush : h.push s = .ok h') :
    ∃ kept, LongestFitting limit s.estimatedSize h.snapshots kept ∧
      h' = { limit, snapshots := kept ++ [s], usage := totalSize (kept ++ [s]) } := by
  rcases Nat.lt_or_ge limit s.estimatedSize with hlarge | hfits
  · rw [push_of_large (hsound.limit_eq ▸ hlarge)] at hpush
    cases hpush
  · obtain ⟨kept, hkept, heq⟩ := hsound.push_of_fits hfits
    rw [heq] at hpush
    exact ⟨kept, hkept, (Except.ok.inj hpush).symm⟩

theorem push (hsound : h.Sound limit) {s : Snapshot} {h' : History} (hpush : h.push s = .ok h') :
    h'.Sound limit := by
  obtain ⟨kept, hkept, rfl⟩ := hsound.eq_of_push hpush
  refine ⟨rfl, rfl, ?_⟩
  rw [totalSize_concat]
  exact hkept.fits

theorem pop? (hsound : h.Sound limit) {s : Snapshot} {h' : History}
    (hpop : h.pop? = some (s, h')) : h'.Sound limit := by
  obtain ⟨hlimit, husage, hle⟩ := hsound
  rcases List.eq_nil_or_concat h.snapshots with hnil | ⟨older, newest, hlast⟩
  · rw [History.pop?, hnil] at hpop
    cases hpop
  · rw [List.concat_eq_append] at hlast
    rw [pop?_concat hlast] at hpop
    cases hpop
    rw [hlast, totalSize_concat] at husage
    refine ⟨hlimit, ?_, ?_⟩
    · rw [husage, Nat.add_sub_cancel]
    · exact Nat.le_trans (Nat.sub_le _ _) hle

theorem operate (hsound : h.Sound limit) (op : HistoryOperation) : (h.operate op).Sound limit := by
  cases op with
  | push s =>
    rw [History.operate]
    cases hpush : h.push s with
    | error e => exact hsound
    | ok h' => exact hsound.push hpush
  | pop =>
    rw [History.operate]
    cases hpop : h.pop? with
    | none => exact hsound
    | some popped => exact hsound.pop? hpop

theorem operateAll (hsound : h.Sound limit) (ops : List HistoryOperation) :
    (h.operateAll ops).Sound limit := by
  induction ops generalizing h with
  | nil => exact hsound
  | cons op ops ih => exact ih (hsound.operate op)

end Sound

/-! ## The policy -/

/-- What a history with a limit promises, whatever comes next. -/
structure KeepsRecent (limit : Nat) (h : History) : Prop where
  usage_eq : h.usage = totalSize h.snapshots
  usage_le : h.usage ≤ limit
  /-- A snapshot is refused exactly if it alone exceeds the limit. -/
  push_refused_iff (s : Snapshot) : (∃ e, h.push s = .error e) ↔ limit < s.estimatedSize
  /-- Nothing changes then. -/
  push_refused {s : Snapshot} {e : HistoryError} : h.push s = .error e →
    e = ⟨s.estimatedSize, limit⟩ ∧ h.operate (.push s) = h
  /-- A snapshot that is kept comes after as many of the older ones as can be kept with it. -/
  push_kept {s : Snapshot} {h' : History} : h.push s = .ok h' →
    ∃ kept, LongestFitting limit s.estimatedSize h.snapshots kept ∧ h'.snapshots = kept ++ [s]
  /-- While room is made for it, no subtraction falls short and the snapshots do not run out. -/
  evict_checked {s : Snapshot} : s.estimatedSize ≤ limit →
    evict? h.limit s.estimatedSize h.snapshots h.usage =
      some (evict h.limit s.estimatedSize h.snapshots h.usage)
  /-- Taking one out gives the newest, and the account covers it. -/
  pop_newest {older : List Snapshot} {newest : Snapshot} : h.snapshots = older ++ [newest] →
    newest.estimatedSize ≤ h.usage ∧
      ∃ h', h.pop? = some (newest, h') ∧ h'.snapshots = older ∧ h'.limit = limit
  pop_none_iff : h.pop? = none ↔ h.snapshots = []

theorem Sound.keepsRecent {limit : Nat} {h : History} (hsound : h.Sound limit) :
    h.KeepsRecent limit where
  usage_eq := hsound.usage_eq
  usage_le := hsound.usage_le
  push_refused_iff s := by
    constructor
    · rintro ⟨e, herror⟩
      by_contra hfits
      obtain ⟨kept, -, heq⟩ := hsound.push_of_fits (Nat.not_lt.1 hfits)
      rw [heq] at herror
      cases herror
    · intro hlarge
      exact ⟨_, push_of_large (hsound.limit_eq ▸ hlarge)⟩
  push_refused {s e} herror := by
    constructor
    · rw [History.push, hsound.limit_eq] at herror
      split at herror
      · cases herror
        rfl
      · cases herror
    · rw [History.operate, herror]
  push_kept hpush := by
    obtain ⟨kept, hkept, rfl⟩ := hsound.eq_of_push hpush
    exact ⟨kept, hkept, rfl⟩
  evict_checked {s} hfits := by
    rw [hsound.limit_eq, hsound.usage_eq]
    exact evict?_eq_some hfits h.snapshots
  pop_newest {older newest} hlast := by
    refine ⟨?_, _, pop?_concat hlast, rfl, hsound.limit_eq⟩
    rw [hsound.usage_eq, hlast, totalSize_concat]
    omega
  pop_none_iff := by
    rw [History.pop?]
    constructor
    · intro hnone
      split at hnone
      · next hlast => exact List.getLast?_eq_none_iff.1 hlast
      · cases hnone
    · intro hnil
      rw [hnil]
      rfl

/-- The history keeps the longest run of recent snapshots that fits. Through every sequence of
    pushes and pops its account is the sum of the sizes and within the limit. A push is refused
    exactly if the snapshot alone exceeds the limit; otherwise the longest suffix of what was
    there that fits together with it stays, and it becomes the newest. A pop gives back the
    newest. -/
theorem keeps_longest_suffix (limit : Nat) (ops : List HistoryOperation) :
    ((empty limit).operateAll ops).KeepsRecent limit :=
  ((sound_empty limit).operateAll ops).keepsRecent

/-- A snapshot that holds only a program of so many words. -/
def idle (words : Nat) : Snapshot :=
  .ofArrays 0 .zero ((∅ : ArrayTable).insert 0 (.replicate words 0))

/-- Room for some 300 bytes, with snapshots of 72, 112 and 80 bytes in it. -/
def threeKept : History :=
  (empty 300).operateAll [.push (idle 0), .push (idle 90), .push (idle 10), .push (idle 5), .pop,
    .push (idle 2)]

/-- The next snapshot takes 172 bytes, and two of the three have to go for it. -/
theorem keeps_longest_suffix_threeKept :
    threeKept.snapshots = [idle 0, idle 10, idle 2] ∧ threeKept.usage = 264 ∧
    (∃ h', threeKept.push (idle 25) = .ok h' ∧ h'.snapshots = [idle 2] ++ [idle 25]) ∧
    LongestFitting 300 172 threeKept.snapshots [idle 2] ∧
    (∃ e, threeKept.push (idle 58) = .error e) := by
  have hkeeps : threeKept.KeepsRecent 300 := keeps_longest_suffix 300 _
  have hsnapshots : threeKept.snapshots = [idle 0, idle 10, idle 2] := by decide
  have hpush : ∃ h', threeKept.push (idle 25) = .ok h' ∧ h'.snapshots = [idle 2] ++ [idle 25] :=
    ⟨_, rfl, by decide⟩
  obtain ⟨h', hpushed, hafter⟩ := hpush
  obtain ⟨kept, hkept, hsame⟩ := hkeeps.push_kept hpushed
  obtain rfl : [idle 2] = kept := List.append_cancel_right (hafter.symm.trans hsame)
  exact ⟨hsnapshots, by decide, ⟨h', hpushed, hafter⟩, hkept,
    (hkeeps.push_refused_iff (idle 58)).2 (by decide)⟩

end History

end UniversalMachine
