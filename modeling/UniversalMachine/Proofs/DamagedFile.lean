/-
  UniversalMachine.Proofs.DamagedFile

  A snapshot file that was cut short, or has something after its end, is refused.

  The fields of a file are what its readers take one at a time. A file that was cut
  ends inside one of them, or just before it; that field is reported, with the number
  of bytes that are missing from it (`Storable.decode_of_cut`). No other refusal comes
  first, since all that stands before the cut is as it was written. What is left over
  after the last array is counted. So the file of one snapshot never begins the file
  of another (`Storable.eq_of_encode_prefix`).
-/

import UniversalMachine.Proofs.CanonicalFile

namespace UniversalMachine

namespace Snapshot

/-- The fields of the file of a snapshot: the magic, the version, the pointer, each register, the
    counter, the number of arrays, and the handle, the length and the contents of each array. -/
def fields (s : Snapshot) : List Bytes :=
  magic :: bodyFields s.ip s.registers s.nextHandle s.arrays.toList

theorem encode_eq_flatten (s : Snapshot) : s.encode = s.fields.flatten := by
  rw [encode_eq_layOut, layOut_eq_flatten, fields, List.flatten_cons]

/-- A file too short for the magic has the wrong one. -/
theorem decode_of_length_lt {bytes : Bytes} (h : bytes.length < 4) :
    decode bytes = .error .badMagic := by
  have htake : (bytes.take magic.length).length ≠ magic.length := by
    rw [List.length_take]
    show min 4 bytes.length ≠ 4
    omega
  have hmagic : (Cursor.start bytes).takeMagic = .error .badMagic := by
    rw [Cursor.takeMagic, Cursor.take, Cursor.start, if_neg htake]
  rw [decode_eq_bind, hmagic]
  rfl

/-- A file that was cut behind the magic is reported with the field that was cut. -/
theorem Storable.decode_of_cut {s : Snapshot} (hs : s.Storable) {bytes missing : Bytes}
    (hcut : bytes ++ missing = s.encode) (hmissing : missing ≠ []) (hmagic : 4 ≤ bytes.length) :
    ∃ start stop, FieldAt s.fields start stop ∧ start ≤ bytes.length ∧ bytes.length < stop ∧
      decode bytes = .error (.truncated start (stop - bytes.length)) := by
  rw [encode_eq_flatten, fields, List.flatten_cons] at hcut
  obtain ⟨missing', hshort, hmissing'⟩ | ⟨body, rfl, hbody⟩ := cut_cases hcut
  · -- a part of the magic has less than its four bytes
    have hpos := List.length_pos_iff.2 hmissing'
    have hlength : bytes.length + missing'.length = 4 := by
      rw [← List.length_append, hshort]
      rfl
    omega
  · obtain ⟨start, stop, hfield, hstart, hstop, herror⟩ :=
      hs.reads_takeSnapshot.cut 4 hbody hmissing
    refine ⟨4 + start, 4 + stop, hfield.append_left [magic], ?_, ?_, ?_⟩
    · rw [List.length_append]
      exact Nat.add_le_add_left hstart 4
    · rw [List.length_append]
      exact Nat.add_lt_add_left hstop 4
    · rw [decode_magic_append, herror, List.length_append]
      congr 2
      exact (Nat.add_sub_add_left 4 stop body.length).symm

/-- A file that begins with the file of another snapshot is that file. -/
theorem Storable.eq_of_encode_prefix {s other : Snapshot} (hs : s.Storable)
    (hother : other.Storable) (h : s.encode <+: other.encode) : s = other := by
  obtain ⟨rest, hrest⟩ := h
  have hread := decode_encode other hother.program hother.count_lt hother.size_lt
  rw [← hrest, hs.decode_encode_append] at hread
  split at hread
  · cases hread
  · exact Except.ok.inj hread

/-- Damage to the length of a file is always found. If the end of a file is missing, then what is
    left is not taken for a snapshot file at all when the magic is incomplete, and otherwise the
    field that was cut is reported by its start, with the number of bytes up to its end. Bytes after
    the end are refused and counted. So no file begins another. -/
theorem damaged_files_detected (s : Snapshot) (hs : s.Storable) :
    s.encode = s.fields.flatten ∧
    (∀ bytes, bytes <+: s.encode → bytes ≠ s.encode →
      (bytes.length < 4 → decode bytes = .error .badMagic) ∧
      (4 ≤ bytes.length → ∃ offset needed, decode bytes = .error (.truncated offset needed) ∧
        offset ≤ bytes.length ∧ 1 ≤ needed ∧
        FieldAt s.fields offset (bytes.length + needed) ∧
        bytes.length + needed ≤ s.encode.length)) ∧
    (∀ rest, rest ≠ [] → decode (s.encode ++ rest) = .error (.trailingBytes rest.length)) ∧
    ∀ other : Snapshot, other.Storable → s.encode <+: other.encode → s = other := by
  refine ⟨s.encode_eq_flatten, ?_, ?_, fun other => hs.eq_of_encode_prefix⟩
  · rintro bytes ⟨missing, hcut⟩ hne
    refine ⟨decode_of_length_lt, ?_⟩
    intro hmagic
    have hmissing : missing ≠ [] := by
      rintro rfl
      rw [List.append_nil] at hcut
      exact hne hcut
    obtain ⟨start, stop, hfield, hstart, hstop, herror⟩ := hs.decode_of_cut hcut hmissing hmagic
    have hend : bytes.length + (stop - bytes.length) = stop := by omega
    refine ⟨start, stop - bytes.length, herror, hstart, by omega, ?_, ?_⟩
    · rw [hend]
      exact hfield
    · rw [hend, encode_eq_flatten]
      exact hfield.stop_le
  · intro rest hrest
    rw [hs.decode_encode_append, if_pos hrest]

/-- The empty array of `threeArrays` has no contents, so a file that was cut behind its length is
    missing the handle of the array after it. -/
theorem damaged_files_detected_threeArrays :
    threeArrays.Storable ∧
    decode (threeArrays.encode.take 3) = .error .badMagic ∧
    decode (threeArrays.encode.take 73) = .error (.truncated 73 4) ∧
    FieldAt threeArrays.fields 73 77 ∧
    decode (threeArrays.encode ++ [0, 0]) = .error (.trailingBytes 2) := by
  have hs : threeArrays.Storable := by
    refine ⟨by decide, by decide, ?_⟩
    intro handle array h
    have hall : ∀ entry ∈ threeArrays.arrays.toList, entry.2.size < 2 ^ 32 := by decide
    exact hall (handle, array) (Std.ExtTreeMap.mem_toList_iff_getElem?_eq_some.2 h)
  obtain ⟨-, hcut, hrest, -⟩ := damaged_files_detected threeArrays hs
  have hlength : threeArrays.encode.length = 93 := by decide
  have htake {count : Nat} (h : count < 93) : (threeArrays.encode.take count).length = count := by
    rw [List.length_take, hlength]
    omega
  have hne {count : Nat} (h : count < 93) :
      threeArrays.encode.take count ≠ threeArrays.encode := by
    intro heq
    have hsame := htake h
    rw [heq, hlength] at hsame
    omega
  obtain ⟨hmagic, -⟩ := hcut _ (List.take_prefix 3 _) (hne (by decide))
  obtain ⟨-, htruncated⟩ := hcut _ (List.take_prefix 73 _) (hne (by decide))
  obtain ⟨offset, needed, herror, -, -, hfield, -⟩ := htruncated (by rw [htake] <;> decide)
  have hread : decode (threeArrays.encode.take 73) = .error (.truncated 73 4) := by decide
  rw [hread] at herror
  obtain ⟨rfl, rfl⟩ : 73 = offset ∧ 4 = needed := by cases herror; exact ⟨rfl, rfl⟩
  rw [htake (by decide)] at hfield
  exact ⟨hs, hmagic (by rw [htake] <;> decide), hread, hfield, hrest [0, 0] (by decide)⟩

end Snapshot

end UniversalMachine
