/-
  UniversalMachine.Proofs.RoundTrip

  Reading a snapshot file gives back the snapshot it was written from.

  Each reader of the format takes the fields its writer puts down and leaves the
  cursor behind them, whatever follows; given only a part of them, it reports the
  field that was cut (`Cursor.Reads`). Readers one after the other take the fields
  of both (`Cursor.Reads.bind`), so each reader is followed line by line. The arrays
  are read into a growing table (`Cursor.Reads.takeArrays`, by induction over the
  entries still to come), and a file is read whatever the order of its entries
  (`decode_layOut`). A table filled from the listing of another is that other table
  (`ArrayTable.addEntries_toList`), which is the case of a file that was written from
  a snapshot (`decode_encode`).
-/

import Mathlib.Algebra.Group.Nat.Defs
import UniversalMachine.Proofs.Accounting
import UniversalMachine.Snapshot.Codec

namespace UniversalMachine

namespace ArrayTable

/-- Adds entries to a table, one after the other. -/
def addEntries (arrays : ArrayTable) (entries : List (Handle × Array Word)) : ArrayTable :=
  entries.foldl (fun table entry => table.insert entry.1 entry.2) arrays

/-- Entries with distinct handles can be looked up in the table they were added to. -/
theorem getElem?_addEntries {entries : List (Handle × Array Word)}
    (hdistinct : entries.Pairwise fun x y => x.1 ≠ y.1) {handle : Handle} {array : Array Word} :
    (addEntries ∅ entries)[handle]? = some array ↔ (handle, array) ∈ entries := by
  have hofList : addEntries ∅ entries = Std.ExtTreeMap.ofList entries := by
    rw [Std.ExtTreeMap.ofList_eq_insertMany_empty, Std.ExtTreeMap.insertMany_list_eq_foldl]
    rfl
  have hdistinct' : entries.Pairwise fun x y => ¬compare x.1 y.1 = .eq :=
    hdistinct.imp fun hne heq => hne (Std.LawfulEqCmp.eq_of_compare heq)
  have hfound : ∀ a, (handle, a) ∈ entries → (addEntries ∅ entries)[handle]? = some a := by
    intro a hmem
    rw [hofList]
    exact Std.ExtTreeMap.getElem?_ofList_of_mem Std.ReflCmp.compare_self hdistinct' hmem
  constructor
  · intro h
    by_cases hmem : handle ∈ entries.map Prod.fst
    · obtain ⟨⟨k, a⟩, hentry, rfl⟩ := List.mem_map.1 hmem
      obtain rfl : a = array := Option.some.inj ((hfound a hentry).symm.trans h)
      exact hentry
    · rw [hofList, Std.ExtTreeMap.getElem?_ofList_of_contains_eq_false (by simpa using hmem)] at h
      cases h
  · exact hfound array

/-- A table is rebuilt from its listing. -/
theorem addEntries_toList (arrays : ArrayTable) : addEntries ∅ arrays.toList = arrays := by
  apply Std.ExtTreeMap.ext_getElem?
  intro k
  apply Option.ext
  intro array
  rw [getElem?_addEntries arrays.pairwise_toList,
    Std.ExtTreeMap.mem_toList_iff_getElem?_eq_some]

end ArrayTable

namespace Snapshot

namespace Cursor

/-! ## Readers -/

theorem ok_bind {α β : Type} (a : α) (f : α → Except SnapshotError β) :
    (Except.ok a >>= f) = f a := rfl

/-- Taking bytes splits them off the rest. -/
theorem take_eq_ok {cursor after : Cursor} {count : Nat} {block : Bytes} :
    cursor.take count = .ok (block, after) ↔
      block.length = count ∧ cursor.rest = block ++ after.rest ∧
        after.offset = cursor.offset + count := by
  obtain ⟨offset, rest⟩ := cursor
  obtain ⟨offset', rest'⟩ := after
  rw [take]
  constructor
  · intro h
    split at h
    · next hlen =>
      cases h
      exact ⟨hlen, (List.take_append_drop count rest).symm, rfl⟩
    · cases h
  · rintro ⟨hlen, hrest, hoffset⟩
    subst hlen hoffset
    rw [hrest]
    simp

/-- Taking words takes the bytes they are written with. -/
theorem takeWords_eq_ok {cursor after : Cursor} {count : Nat} {words : List Word} :
    cursor.takeWords count = .ok (words, after) ↔
      words.length = count ∧ cursor.rest = Word.listToBytes words ++ after.rest ∧
        after.offset = cursor.offset + 4 * count := by
  rw [takeWords]
  constructor
  · intro h
    cases hblock : cursor.take (4 * count) with
    | error e => rw [hblock] at h; cases h
    | ok taken =>
      obtain ⟨block, rest⟩ := taken
      rw [hblock] at h
      cases h
      obtain ⟨hlen, hrest, hoffset⟩ := take_eq_ok.1 hblock
      -- the block is a whole number of words, so writing what was read gives it back
      have hbytes := Word.listToBytes_listOfBytes block (by omega)
      have hcount := Word.length_listToBytes (Word.listOfBytes block)
      rw [hbytes] at hcount
      exact ⟨by omega, by rw [hbytes]; exact hrest, hoffset⟩
  · rintro ⟨rfl, hrest, hoffset⟩
    have hblock : cursor.take (4 * words.length) = .ok (Word.listToBytes words, after) :=
      take_eq_ok.2 ⟨Word.length_listToBytes words, hrest, hoffset⟩
    rw [hblock]
    show Except.ok (Word.listOfBytes (Word.listToBytes words), after) = _
    rw [Word.listOfBytes_listToBytes]

end Cursor

/-! ## Fields -/

/-- The fields of an array in a file: handle, length, contents. -/
def entryFields (entry : Handle × Array Word) : List Bytes :=
  [Word.toBytes entry.1, Word.toBytes (.ofNat entry.2.size), Word.listToBytes entry.2.toList]

/-- A field of a file, from the place where it starts to the place where it stops. -/
def FieldAt (fields : List Bytes) (start stop : Nat) : Prop :=
  ∃ before field after, fields = before ++ field :: after ∧
    before.flatten.length = start ∧ start + field.length = stop

theorem FieldAt.append_right {fields : List Bytes} {start stop : Nat}
    (h : FieldAt fields start stop) (more : List Bytes) :
    FieldAt (fields ++ more) start stop := by
  obtain ⟨before, field, after, rfl, hstart, hstop⟩ := h
  exact ⟨before, field, after ++ more, by simp, hstart, hstop⟩

theorem FieldAt.append_left {fields : List Bytes} {start stop : Nat}
    (h : FieldAt fields start stop) (more : List Bytes) :
    FieldAt (more ++ fields) (more.flatten.length + start) (more.flatten.length + stop) := by
  obtain ⟨before, field, after, rfl, rfl, rfl⟩ := h
  refine ⟨more ++ before, field, after, by simp, ?_, Nat.add_assoc _ _ _⟩
  rw [List.flatten_append, List.length_append]

/-- The first bytes of two blocks end in the first of them or not before the second. -/
theorem cut_cases {bytes missing xs ys : Bytes} (h : bytes ++ missing = xs ++ ys) :
    (∃ missing', bytes ++ missing' = xs ∧ missing' ≠ []) ∨
      ∃ bytes', bytes = xs ++ bytes' ∧ bytes' ++ missing = ys := by
  obtain ⟨missing', hxs, hmissing⟩ | ⟨bytes', hbytes, hys⟩ := List.append_eq_append_iff.1 h
  · cases missing' with
    | nil => exact .inr ⟨[], by rw [hxs, List.append_nil, List.append_nil], hmissing⟩
    | cons byte missing' => exact .inl ⟨_, hxs.symm, List.cons_ne_nil _ _⟩
  · exact .inr ⟨bytes', hbytes, hys.symm⟩

theorem FieldAt.stop_le {fields : List Bytes} {start stop : Nat}
    (h : FieldAt fields start stop) : stop ≤ fields.flatten.length := by
  obtain ⟨before, field, after, rfl, rfl, rfl⟩ := h
  rw [List.flatten_append, List.flatten_cons, List.length_append, List.length_append]
  omega

namespace Cursor

/-- A reader that takes the given fields one after the other, and then has an outcome that depends
    on what follows. Where the bytes end before the last field does, it reports the field they end
    in, and how much of it is missing. -/
structure Reads {ρ : Type} (read : Cursor → Except SnapshotError ρ) (fields : List Bytes)
    (outcome : Cursor → Except SnapshotError ρ) : Prop where
  whole (offset : Nat) (rest : Bytes) :
    read ⟨offset, fields.flatten ++ rest⟩ = outcome ⟨offset + fields.flatten.length, rest⟩
  cut (offset : Nat) {bytes missing : Bytes} : bytes ++ missing = fields.flatten → missing ≠ [] →
    ∃ start stop, FieldAt fields start stop ∧ start ≤ bytes.length ∧ bytes.length < stop ∧
      read ⟨offset, bytes⟩ = .error (.truncated (offset + start) (stop - bytes.length))

namespace Reads

variable {ρ σ : Type}

/-- What takes nothing has its outcome at once. -/
theorem done (outcome : Cursor → Except SnapshotError ρ) : Reads outcome [] outcome where
  whole _ _ := rfl
  cut _ _ _ h hmissing := absurd (List.append_eq_nil_iff.1 h).2 hmissing

/-- One reader after another takes the fields of both. -/
theorem bind {read : Cursor → Except SnapshotError σ} {next : σ → Except SnapshotError ρ}
    {value : Cursor → σ} {outcome : Cursor → Except SnapshotError ρ} {fields more : List Bytes}
    (hread : Reads read fields fun cursor => .ok (value cursor))
    (hnext : Reads (fun cursor => next (value cursor)) more outcome) :
    Reads (fun cursor => read cursor >>= next) (fields ++ more) outcome where
  whole offset rest := by
    rw [List.flatten_append, List.append_assoc, hread.whole, ok_bind, hnext.whole,
      List.length_append, Nat.add_assoc]
  cut offset bytes missing h hmissing := by
    rw [List.flatten_append] at h
    obtain ⟨missing', hfields, hmissing'⟩ | ⟨bytes', rfl, hmore⟩ := cut_cases h
    · -- the bytes end in a field of the first reader, and the second is not reached
      obtain ⟨start, stop, hfield, hstart, hstop, herror⟩ := hread.cut offset hfields hmissing'
      refine ⟨start, stop, hfield.append_right more, hstart, hstop, ?_⟩
      rw [herror]
      rfl
    · -- the first reader gets all its fields, and the bytes end in one of the second
      obtain ⟨start, stop, hfield, hstart, hstop, herror⟩ :=
        hnext.cut (offset + fields.flatten.length) hmore hmissing
      refine ⟨_, _, hfield.append_left fields, ?_, ?_, ?_⟩
      · rw [List.length_append]; omega
      · rw [List.length_append]; omega
      · rw [hread.whole, ok_bind, herror, List.length_append, Nat.add_assoc, Nat.add_sub_add_left]

theorem take (block : Bytes) :
    Reads (fun cursor => cursor.take block.length) [block] fun cursor => .ok (block, cursor) where
  whole offset rest := take_eq_ok.2 ⟨rfl, by simp, by simp⟩
  cut offset bytes missing h hmissing := by
    rw [List.flatten_singleton] at h
    have hlength := congrArg List.length h
    have hmissing' := List.length_pos_iff.2 hmissing
    rw [List.length_append] at hlength
    have hall : bytes.take block.length = bytes := List.take_of_length_le (by omega)
    have hfield : FieldAt [block] 0 block.length := ⟨[], block, [], rfl, rfl, Nat.zero_add _⟩
    refine ⟨0, block.length, hfield, Nat.zero_le _, by omega, ?_⟩
    rw [Cursor.take, hall, if_neg (by omega)]
    rfl

theorem takeWords (words : List Word) :
    Reads (fun cursor => cursor.takeWords words.length) [Word.listToBytes words]
      fun cursor => .ok (words, cursor) := by
  have htake := take (Word.listToBytes words)
  rw [Word.length_listToBytes] at htake
  have hread : Reads (fun cursor => cursor.takeWords words.length) [Word.listToBytes words]
      fun cursor => .ok (Word.listOfBytes (Word.listToBytes words), cursor) :=
    htake.bind (done _)
  rwa [Word.listOfBytes_listToBytes] at hread

theorem takeWord (word : Word) :
    Reads Cursor.takeWord [Word.toBytes word] fun cursor => .ok (word, cursor) :=
  (takeWords [word]).bind (done _)

theorem takeByte (byte : UInt8) :
    Reads Cursor.takeByte [[byte]] fun cursor => .ok (byte, cursor) :=
  (take [byte]).bind (done _)

theorem takeVersion : Reads Cursor.takeVersion [[version]] .ok :=
  (takeByte version).bind (done _)

theorem takeRegisters (registers : Registers) :
    Reads Cursor.takeRegisters (registers.toList.map Word.toBytes)
      fun cursor => .ok (registers, cursor) := by
  match registers with
  | ⟨⟨[r₀, r₁, r₂, r₃, r₄, r₅, r₆, r₇]⟩, rfl⟩ =>
    exact (takeWord r₀).bind <| (takeWord r₁).bind <| (takeWord r₂).bind <|
      (takeWord r₃).bind <| (takeWord r₄).bind <| (takeWord r₅).bind <|
      (takeWord r₆).bind <| (takeWord r₇).bind <| done _

theorem takeArray (handle : Handle) {array : Array Word} (hsize : array.size < UInt32.size) :
    Reads Cursor.takeArray (entryFields (handle, array))
      fun cursor => .ok ((handle, array), cursor) := by
  have hlength : (UInt32.ofNat array.size).toNat = array.toList.length := by
    rw [UInt32.toNat_ofNat_of_lt' hsize, Array.length_toList]
  have hwords := takeWords array.toList
  rw [← hlength] at hwords
  exact (takeWord handle).bind ((takeWord _).bind (hwords.bind (done _)))

/-- Entries with distinct new handles are read into the table one by one. -/
theorem takeArrays (entries : List (Handle × Array Word)) (arrays : ArrayTable)
    (hsizes : ∀ entry ∈ entries, entry.2.size < UInt32.size)
    (hdistinct : entries.Pairwise fun x y => x.1 ≠ y.1)
    (hfresh : ∀ entry ∈ entries, entry.1 ∉ arrays) :
    Reads (fun cursor => Cursor.takeArrays entries.length cursor arrays)
      (entries.flatMap entryFields) fun cursor => .ok (arrays.addEntries entries, cursor) := by
  induction entries generalizing arrays with
  | nil => exact done _
  | cons entry entries ih =>
    obtain ⟨handle, array⟩ := entry
    rw [List.pairwise_cons] at hdistinct
    have hnew : handle ∉ arrays := hfresh _ List.mem_cons_self
    -- the entries still to come are new to the grown table as well
    have hfresh' : ∀ entry ∈ entries, entry.1 ∉ arrays.insert handle array := by
      intro entry hentry hmem
      rcases Std.ExtTreeMap.mem_insert.1 hmem with heq | hmem
      · exact hdistinct.1 entry hentry (Std.LawfulEqCmp.eq_of_compare heq)
      · exact hfresh entry (List.mem_cons_of_mem _ hentry) hmem
    have hrest := ih (arrays.insert handle array)
      (fun entry hentry => hsizes entry (List.mem_cons_of_mem _ hentry)) hdistinct.2 hfresh'
    refine (takeArray handle (hsizes _ List.mem_cons_self)).bind ?_
    dsimp only
    simp only [if_neg (show ¬arrays.contains handle = true by simpa using hnew)]
    exact hrest

end Reads

/-- What follows the magic, to the end of the file. -/
def takeSnapshot (cursor : Cursor) : Except SnapshotError Snapshot := do
  let cursor ← cursor.takeVersion
  let (ip, cursor) ← cursor.takeWord
  let (registers, cursor) ← cursor.takeRegisters
  let (nextHandle, cursor) ← cursor.takeWord
  let (count, cursor) ← cursor.takeWord
  let (arrays, cursor) ← Cursor.takeArrays count.toNat cursor ∅
  if cursor.rest ≠ [] then throw (.trailingBytes cursor.rest.length)
  else if ¬arrays.contains 0 then throw .missingProgram
  else return { ip, registers, arrays, nextHandle }

end Cursor

theorem decode_eq_bind (bytes : Bytes) :
    decode bytes = (Cursor.start bytes).takeMagic >>= Cursor.takeSnapshot := rfl

theorem decode_magic_append (bytes : Bytes) :
    decode (magic ++ bytes) = Cursor.takeSnapshot ⟨4, bytes⟩ := by
  have hmagic : (Cursor.start (magic ++ bytes)).takeMagic = .ok ⟨4, bytes⟩ := rfl
  rw [decode_eq_bind, hmagic, Cursor.ok_bind]

/-! ## Files -/

/-- A file that lists entries in the order given. -/
def layOut (ip : Word) (registers : Registers) (nextHandle : Handle)
    (entries : List (Handle × Array Word)) : Bytes :=
  magic ++ [version] ++ Word.toBytes ip ++ Word.listToBytes registers.toList ++
    Word.toBytes nextHandle ++ Word.toBytes (.ofNat entries.length) ++
    entries.flatMap fun entry => encodeArray entry.1 entry.2

theorem encode_eq_layOut (s : Snapshot) :
    s.encode = layOut s.ip s.registers s.nextHandle s.arrays.toList := by
  rw [encode, layOut, Std.ExtTreeMap.length_toList]

section Entries

variable (ip : Word) (registers : Registers) (nextHandle : Handle)
  {entries : List (Handle × Array Word)}

/-- The fields of a file that follow the magic. -/
def bodyFields (entries : List (Handle × Array Word)) : List Bytes :=
  [version] :: Word.toBytes ip :: (registers.toList.map Word.toBytes ++
    Word.toBytes nextHandle :: Word.toBytes (.ofNat entries.length) ::
      entries.flatMap entryFields)

theorem flatten_flatMap_entryFields (entries : List (Handle × Array Word)) :
    (entries.flatMap entryFields).flatten =
      entries.flatMap fun entry => encodeArray entry.1 entry.2 := by
  induction entries with
  | nil => rfl
  | cons entry entries ih =>
    rw [List.flatMap_cons, List.flatten_append, ih, List.flatMap_cons]
    simp [entryFields, encodeArray]

theorem layOut_eq_flatten (entries : List (Handle × Array Word)) :
    layOut ip registers nextHandle entries =
      magic ++ (bodyFields ip registers nextHandle entries).flatten := by
  have hregisters : (registers.toList.map Word.toBytes).flatten =
      Word.listToBytes registers.toList := List.flatMap_def.symm
  simp only [layOut, bodyFields, List.flatten_cons, List.flatten_append,
    flatten_flatMap_entryFields, hregisters, List.append_assoc]

/-- The fields of a file are read in turn, provided that the handles of its entries are distinct,
    that one of them is the program's, and that the numbers of entries and of words fit into
    words. -/
theorem reads_takeSnapshot (hcount : entries.length < UInt32.size)
    (hsizes : ∀ entry ∈ entries, entry.2.size < UInt32.size)
    (hdistinct : entries.Pairwise fun x y => x.1 ≠ y.1)
    (hprogram : ∃ entry ∈ entries, entry.1 = 0) :
    Cursor.Reads Cursor.takeSnapshot (bodyFields ip registers nextHandle entries) fun cursor =>
      if cursor.rest ≠ [] then .error (.trailingBytes cursor.rest.length)
      else .ok { ip, registers, arrays := .addEntries ∅ entries, nextHandle } := by
  have hlength : (UInt32.ofNat entries.length).toNat = entries.length :=
    UInt32.toNat_ofNat_of_lt' hcount
  have harrays := Cursor.Reads.takeArrays entries ∅ hsizes hdistinct (by simp)
  rw [← hlength] at harrays
  have hcontains : (ArrayTable.addEntries ∅ entries).contains 0 = true := by
    obtain ⟨⟨handle, array⟩, hmem, rfl⟩ := hprogram
    have hlookup := (ArrayTable.getElem?_addEntries hdistinct).2 hmem
    rw [Std.ExtTreeMap.contains_eq_isSome_getElem?, hlookup]
    rfl
  -- field by field, as they are written; what is left to do after the arrays takes no field
  rw [bodyFields, ← List.append_nil (entries.flatMap entryFields)]
  refine Cursor.Reads.takeVersion.bind ?_
  refine (Cursor.Reads.takeWord ip).bind ?_
  refine (Cursor.Reads.takeRegisters registers).bind ?_
  refine (Cursor.Reads.takeWord nextHandle).bind ?_
  refine (Cursor.Reads.takeWord _).bind ?_
  refine harrays.bind ?_
  simp only [hcontains]
  exact Cursor.Reads.done _

/-- A file can be read in whatever order its entries stand. -/
theorem decode_layOut (hcount : entries.length < UInt32.size)
    (hsizes : ∀ entry ∈ entries, entry.2.size < UInt32.size)
    (hdistinct : entries.Pairwise fun x y => x.1 ≠ y.1)
    (hprogram : ∃ entry ∈ entries, entry.1 = 0) :
    decode (layOut ip registers nextHandle entries) =
      .ok { ip, registers, arrays := .addEntries ∅ entries, nextHandle } := by
  have hreads := reads_takeSnapshot ip registers nextHandle hcount hsizes hdistinct hprogram
  have hread := hreads.whole 4 []
  rw [List.append_nil, if_neg (fun h => h rfl)] at hread
  rw [layOut_eq_flatten, decode_magic_append, hread]

end Entries

/-! ## Files of snapshots -/

/-- A snapshot that has a program and whose numbers of arrays and words fit into words. -/
structure Storable (s : Snapshot) : Prop where
  program : (0 : Handle) ∈ s.arrays
  count_lt : s.arrays.size < 2 ^ 32
  size_lt (handle : Handle) (array : Array Word) :
    s.arrays[handle]? = some array → array.size < 2 ^ 32

theorem Storable.reads_takeSnapshot {s : Snapshot} (hs : s.Storable) :
    Cursor.Reads Cursor.takeSnapshot
      (bodyFields s.ip s.registers s.nextHandle s.arrays.toList) fun cursor =>
        if cursor.rest ≠ [] then .error (.trailingBytes cursor.rest.length) else .ok s := by
  have hcount : s.arrays.toList.length < UInt32.size := by
    rw [Std.ExtTreeMap.length_toList]
    exact hs.count_lt
  have hsizes : ∀ entry ∈ s.arrays.toList, entry.2.size < UInt32.size := by
    intro entry hentry
    exact hs.size_lt entry.1 entry.2 (Std.ExtTreeMap.mem_toList_iff_getElem?_eq_some.1 hentry)
  have hprogram : ∃ entry ∈ s.arrays.toList, entry.1 = 0 := by
    obtain ⟨array, harray⟩ := Option.isSome_iff_exists.1
      (Std.ExtTreeMap.mem_iff_isSome_getElem?.1 hs.program)
    exact ⟨(0, array), Std.ExtTreeMap.mem_toList_iff_getElem?_eq_some.2 harray, rfl⟩
  have hreads := Snapshot.reads_takeSnapshot s.ip s.registers s.nextHandle hcount hsizes
    s.arrays.pairwise_toList hprogram
  rwa [ArrayTable.addEntries_toList] at hreads

/-- What was written is read back, and whatever follows it is refused. -/
theorem Storable.decode_encode_append {s : Snapshot} (hs : s.Storable) (rest : Bytes) :
    decode (s.encode ++ rest) =
      if rest ≠ [] then .error (.trailingBytes rest.length) else .ok s := by
  rw [encode_eq_layOut, layOut_eq_flatten, List.append_assoc, decode_magic_append,
    hs.reads_takeSnapshot.whole]

/-- Reading what was written gives the snapshot back, provided it has a program and its
    numbers of arrays and words fit into words. -/
theorem decode_encode (s : Snapshot) (hprogram : (0 : Handle) ∈ s.arrays)
    (hcount : s.arrays.size < UInt32.size)
    (hsizes : ∀ (handle : Handle) (array : Array Word), s.arrays[handle]? = some array →
      array.size < UInt32.size) :
    decode (encode s) = .ok s := by
  have hs : s.Storable := ⟨hprogram, hcount, hsizes⟩
  have hread := hs.decode_encode_append []
  rwa [List.append_nil, if_neg (fun h => h rfl)] at hread

end Snapshot

end UniversalMachine
