/-
  UniversalMachine.Proofs.FileGrammar

  Which files can be read, and what is read from them.

  `Snapshot.Layout` is the grammar of the format: the fields of a file together with
  what makes them acceptable, and `Layout.bytes` writes them out. Nothing in it
  depends on the readers. A file is accepted if and only if it is the bytes of a
  layout, and then what is read is what the layout describes.

  One direction takes the readers apart: each that succeeds has found the bytes of
  its field in front of the rest (`takeWord_rest` and the lemmas after it, by
  induction for the arrays). The other is `decode_layOut`. Written again, a file has
  its entries in ascending order of handles, so it comes back unchanged exactly if
  they were in that order before, since a file has only one layout
  (`Layout.bytes_injective`).
-/

import UniversalMachine.Proofs.CanonicalFile

namespace UniversalMachine

namespace Word

theorem listToBytes_injective : Function.Injective listToBytes :=
  Function.LeftInverse.injective listOfBytes_listToBytes

theorem listToBytes_singleton (w : Word) : listToBytes [w] = toBytes w := rfl

theorem toBytes_injective : Function.Injective toBytes := by
  intro v w h
  rw [← listToBytes_singleton, ← listToBytes_singleton] at h
  exact List.singleton_injective (listToBytes_injective h)

/-- A word is recognised by its bytes, whatever follows. -/
theorem eq_of_toBytes_append {v w : Word} {xs ys : Bytes}
    (h : toBytes v ++ xs = toBytes w ++ ys) : v = w ∧ xs = ys := by
  obtain ⟨hbytes, hrest⟩ := List.append_inj h (by rw [length_toBytes, length_toBytes])
  exact ⟨toBytes_injective hbytes, hrest⟩

/-- Words are recognised by their bytes when their number is known. -/
theorem eq_of_listToBytes_append {vs ws : List Word} {xs ys : Bytes}
    (hlength : vs.length = ws.length) (h : listToBytes vs ++ xs = listToBytes ws ++ ys) :
    vs = ws ∧ xs = ys := by
  obtain ⟨hbytes, hrest⟩ := List.append_inj h (by
    rw [length_listToBytes, length_listToBytes, hlength])
  exact ⟨listToBytes_injective hbytes, hrest⟩

end Word

namespace Snapshot

/-! ## The grammar -/

/-- An array as it stands in a file: a handle, a length, and that many words. -/
structure Entry where
  handle : Handle
  length : Word
  words : List Word
  length_words : words.length = length.toNat

/-- A file, field by field. -/
structure Layout where
  ip : Word
  registers : Registers
  counter : Word
  count : Word
  entries : List Entry
  length_entries : entries.length = count.toNat
  distinct : entries.Pairwise fun x y => x.handle ≠ y.handle
  program : ∃ entry ∈ entries, entry.handle = 0

namespace Entry

def bytes (entry : Entry) : Bytes :=
  Word.toBytes entry.handle ++ Word.toBytes entry.length ++ Word.listToBytes entry.words

/-- What an entry puts into the table. -/
def binding (entry : Entry) : Handle × Array Word :=
  (entry.handle, entry.words.toArray)

theorem bytes_eq_encodeArray (entry : Entry) :
    entry.bytes = encodeArray entry.binding.1 entry.binding.2 := by
  have hlength : UInt32.ofNat entry.words.length = entry.length := by
    rw [entry.length_words, UInt32.ofNat_toNat]
  simp only [bytes, binding, encodeArray, List.size_toArray, hlength]

theorem mem_map_binding {entries : List Entry} {handle : Handle} {array : Array Word} :
    (handle, array) ∈ entries.map binding ↔
      ∃ entry ∈ entries, entry.handle = handle ∧ entry.words = array.toList := by
  rw [List.mem_map]
  constructor
  · rintro ⟨entry, hmem, hbinding⟩
    obtain ⟨rfl, rfl⟩ := Prod.mk.inj hbinding
    exact ⟨entry, hmem, rfl, rfl⟩
  · rintro ⟨entry, hmem, rfl, hwords⟩
    refine ⟨entry, hmem, ?_⟩
    rw [binding, hwords]

theorem getElem?_addEntries {entries : List Entry}
    (hdistinct : entries.Pairwise fun x y => x.handle ≠ y.handle) (handle : Handle)
    (array : Array Word) :
    (ArrayTable.addEntries ∅ (entries.map binding))[handle]? = some array ↔
      ∃ entry ∈ entries, entry.handle = handle ∧ entry.words = array.toList := by
  have hdistinct' : (entries.map binding).Pairwise fun x y => x.1 ≠ y.1 :=
    List.pairwise_map.2 hdistinct
  rw [ArrayTable.getElem?_addEntries hdistinct', mem_map_binding]

theorem size_binding_lt (entry : Entry) : entry.binding.2.size < UInt32.size := by
  have hlt := entry.length.toNat_lt
  simp only [binding, List.size_toArray, entry.length_words]
  exact hlt

/-- An entry is recognised by its bytes, whatever follows. -/
theorem eq_of_bytes_append {x y : Entry} {xs ys : Bytes} (h : x.bytes ++ xs = y.bytes ++ ys) :
    x = y ∧ xs = ys := by
  obtain ⟨handle, length, words, hwords⟩ := x
  obtain ⟨handle', length', words', hwords'⟩ := y
  simp only [bytes, List.append_assoc] at h
  obtain ⟨hhandle, h₁⟩ := Word.eq_of_toBytes_append h
  obtain ⟨hlength, h₂⟩ := Word.eq_of_toBytes_append h₁
  subst hhandle hlength
  obtain ⟨hsame, h₃⟩ := Word.eq_of_listToBytes_append (hwords.trans hwords'.symm) h₂
  subst hsame
  exact ⟨rfl, h₃⟩

theorem eq_of_flatMap_bytes {xs ys : List Entry} (hlength : xs.length = ys.length)
    (h : xs.flatMap bytes = ys.flatMap bytes) : xs = ys := by
  induction xs generalizing ys with
  | nil => exact (List.length_eq_zero_iff.1 hlength.symm).symm
  | cons x xs ih =>
    cases ys with
    | nil => cases hlength
    | cons y ys =>
      rw [List.flatMap_cons, List.flatMap_cons] at h
      obtain ⟨rfl, hrest⟩ := eq_of_bytes_append h
      rw [ih (Nat.succ.inj hlength) hrest]

end Entry

namespace Layout

/-- "UMST", the version 1, the pointer, the registers, the counter, the number of entries, and
    the entries. -/
def bytes (f : Layout) : Bytes :=
  [0x55, 0x4D, 0x53, 0x54, 1] ++ Word.toBytes f.ip ++ Word.listToBytes f.registers.toList ++
    Word.toBytes f.counter ++ Word.toBytes f.count ++ f.entries.flatMap Entry.bytes

/-- A file has only one layout. -/
theorem bytes_injective : Function.Injective bytes := by
  intro f g h
  obtain ⟨ip, registers, counter, count, entries, hlength, _, _⟩ := f
  obtain ⟨ip', registers', counter', count', entries', hlength', _, _⟩ := g
  simp only [bytes, List.append_assoc] at h
  have hsize : registers.toList.length = registers'.toList.length := by simp
  obtain ⟨hip, h₁⟩ := Word.eq_of_toBytes_append (List.append_cancel_left h)
  obtain ⟨hwords, h₂⟩ := Word.eq_of_listToBytes_append hsize h₁
  obtain ⟨hcounter, h₃⟩ := Word.eq_of_toBytes_append h₂
  obtain ⟨hcount, h₄⟩ := Word.eq_of_toBytes_append h₃
  have hregisters := Vector.toList_inj.1 hwords
  subst hip hregisters hcounter hcount
  have hentries := Entry.eq_of_flatMap_bytes (hlength.trans hlength'.symm) h₄
  subst hentries
  rfl

theorem bytes_eq_layOut (f : Layout) :
    f.bytes = layOut f.ip f.registers f.counter (f.entries.map Entry.binding) := by
  have hcount : UInt32.ofNat (f.entries.map Entry.binding).length = f.count := by
    rw [List.length_map, f.length_entries, UInt32.ofNat_toNat]
  have hentries : (f.entries.map Entry.binding).flatMap
      (fun entry => encodeArray entry.1 entry.2) = f.entries.flatMap Entry.bytes := by
    rw [List.flatMap_map]
    exact congrArg (f.entries.flatMap ·) (funext fun entry => entry.bytes_eq_encodeArray.symm)
  rw [bytes, layOut, hcount, hentries]
  rfl

/-- A snapshot with the fields of a file, in which each handle is bound to its words. -/
structure Describes (f : Layout) (s : Snapshot) : Prop where
  ip : s.ip = f.ip
  registers : s.registers = f.registers
  nextHandle : s.nextHandle = f.counter
  arrays : ∀ (handle : Handle) (array : Array Word), s.arrays[handle]? = some array ↔
    ∃ entry ∈ f.entries, entry.handle = handle ∧ entry.words = array.toList

/-- The snapshot in a file. -/
def snapshot (f : Layout) : Snapshot where
  ip := f.ip
  registers := f.registers
  arrays := .addEntries ∅ (f.entries.map Entry.binding)
  nextHandle := f.counter

theorem describes_snapshot (f : Layout) : f.Describes f.snapshot :=
  ⟨rfl, rfl, rfl, Entry.getElem?_addEntries f.distinct⟩

theorem Describes.eq_snapshot {f : Layout} {s : Snapshot} (h : f.Describes s) :
    s = f.snapshot := by
  obtain ⟨ip, registers, arrays, nextHandle⟩ := s
  obtain ⟨rfl, rfl, rfl, hbinds⟩ := h
  have harrays : arrays = .addEntries ∅ (f.entries.map Entry.binding) := by
    apply Std.ExtTreeMap.ext_getElem?
    intro handle
    apply Option.ext
    intro array
    rw [hbinds, Entry.getElem?_addEntries f.distinct]
  rw [harrays]
  rfl

/-- The same file with its entries in ascending order of handles. -/
def sorted (f : Layout) : Layout where
  ip := f.ip
  registers := f.registers
  counter := f.counter
  count := f.count
  entries := sortByHandle Entry.handle f.entries
  length_entries := by
    rw [(sortByHandle_perm Entry.handle f.entries).length_eq, f.length_entries]
  distinct := (sortByHandle_perm Entry.handle f.entries).symm.pairwise f.distinct
    fun hne => Ne.symm hne
  program := by
    obtain ⟨entry, hmem, hzero⟩ := f.program
    exact ⟨entry, (sortByHandle_perm Entry.handle f.entries).mem_iff.2 hmem, hzero⟩

theorem ascending_sorted (f : Layout) :
    f.sorted.entries.Pairwise fun x y => x.handle < y.handle :=
  ascending_sortByHandle f.distinct

theorem length_bytes_sorted (f : Layout) : f.sorted.bytes.length = f.bytes.length := by
  have hentries := ((sortByHandle_perm Entry.handle f.entries).flatMap_right Entry.bytes).length_eq
  simp only [bytes, List.length_append]
  exact congrArg _ hentries

theorem bytes_sorted_eq_iff (f : Layout) :
    f.sorted.bytes = f.bytes ↔ f.entries.Pairwise fun x y => x.handle < y.handle := by
  constructor
  · intro h
    have hsame := bytes_injective h
    rw [← hsame]
    exact f.ascending_sorted
  · intro hascending
    have hsame : f.sorted.entries = f.entries := sortByHandle_eq_self hascending
    simp only [bytes, hsame]
    rfl

/-- What a file describes does not depend on the order of its entries. -/
theorem Describes.sorted {f : Layout} {s : Snapshot} (h : f.Describes s) :
    f.sorted.Describes s where
  ip := h.ip
  registers := h.registers
  nextHandle := h.nextHandle
  arrays handle array := by
    rw [h.arrays]
    constructor
    · rintro ⟨entry, hmem, hbinds⟩
      exact ⟨entry, (sortByHandle_perm Entry.handle f.entries).mem_iff.2 hmem, hbinds⟩
    · rintro ⟨entry, hmem, hbinds⟩
      exact ⟨entry, (sortByHandle_perm Entry.handle f.entries).mem_iff.1 hmem, hbinds⟩

theorem Describes.listing {f : Layout} {s : Snapshot} (h : f.Describes s) :
    s.arrays.Listing (f.entries.map Entry.binding) where
  distinct := List.pairwise_map.2 f.distinct
  mem_iff handle array := by rw [h.arrays, Entry.mem_map_binding]

/-- A described snapshot is written with the entries in ascending order. -/
theorem Describes.encode_eq {f : Layout} {s : Snapshot} (h : f.Describes s) :
    s.encode = f.sorted.bytes := by
  have hascending : (f.sorted.entries.map Entry.binding).Pairwise fun x y => x.1 < y.1 :=
    List.pairwise_map.2 f.ascending_sorted
  rw [encode_eq_layOut, ArrayTable.toList_eq_of_ascending h.sorted.listing hascending,
    bytes_eq_layOut, h.ip, h.registers, h.nextHandle]
  rfl

end Layout

/-! ## Taking the readers apart -/

namespace Cursor

theorem bind_eq_ok {α β : Type} {x : Except SnapshotError α} {f : α → Except SnapshotError β}
    {b : β} : (x >>= f) = .ok b ↔ ∃ a, x = .ok a ∧ f a = .ok b := by
  cases x with
  | error e => exact ⟨fun h => (nomatch h), fun ⟨_, h, _⟩ => (nomatch h)⟩
  | ok a => exact ⟨fun h => ⟨a, rfl, h⟩, fun ⟨_, ha, h⟩ => by cases ha; exact h⟩

theorem takeMagic_rest {cursor after : Cursor} (h : cursor.takeMagic = .ok after) :
    cursor.rest = magic ++ after.rest := by
  rw [takeMagic] at h
  split at h
  · next block cursor' htake =>
    split at h
    · next hblock =>
      cases h
      rw [← hblock]
      exact (take_eq_ok.1 htake).2.1
    · cases h
  · cases h

theorem takeVersion_rest {cursor after : Cursor} (h : cursor.takeVersion = .ok after) :
    cursor.rest = version :: after.rest := by
  rw [takeVersion] at h
  obtain ⟨⟨found, cursor'⟩, hbyte, h⟩ := bind_eq_ok.1 h
  rw [takeByte] at hbyte
  obtain ⟨⟨block, cursor''⟩, htake, hfound⟩ := bind_eq_ok.1 hbyte
  cases hfound
  obtain ⟨hlength, hrest, -⟩ := take_eq_ok.1 htake
  dsimp only at h
  split at h
  · next hversion =>
    cases h
    obtain ⟨byte, rfl⟩ := List.length_eq_one_iff.1 hlength
    rw [hrest, ← hversion]
    rfl
  · cases h

theorem takeWord_rest {cursor after : Cursor} {word : Word}
    (h : cursor.takeWord = .ok (word, after)) : cursor.rest = Word.toBytes word ++ after.rest := by
  rw [takeWord] at h
  obtain ⟨⟨words, cursor'⟩, hwords, h⟩ := bind_eq_ok.1 h
  cases h
  obtain ⟨hlength, hrest, -⟩ := takeWords_eq_ok.1 hwords
  obtain ⟨word, rfl⟩ := List.length_eq_one_iff.1 hlength
  rw [hrest]
  simp [Word.listToBytes]

theorem takeRegisters_rest {cursor after : Cursor} {registers : Registers}
    (h : cursor.takeRegisters = .ok (registers, after)) :
    cursor.rest = Word.listToBytes registers.toList ++ after.rest := by
  rw [takeRegisters] at h
  obtain ⟨⟨r₀, c₀⟩, h₀, h⟩ := bind_eq_ok.1 h
  obtain ⟨⟨r₁, c₁⟩, h₁, h⟩ := bind_eq_ok.1 h
  obtain ⟨⟨r₂, c₂⟩, h₂, h⟩ := bind_eq_ok.1 h
  obtain ⟨⟨r₃, c₃⟩, h₃, h⟩ := bind_eq_ok.1 h
  obtain ⟨⟨r₄, c₄⟩, h₄, h⟩ := bind_eq_ok.1 h
  obtain ⟨⟨r₅, c₅⟩, h₅, h⟩ := bind_eq_ok.1 h
  obtain ⟨⟨r₆, c₆⟩, h₆, h⟩ := bind_eq_ok.1 h
  obtain ⟨⟨r₇, c₇⟩, h₇, h⟩ := bind_eq_ok.1 h
  cases h
  rw [takeWord_rest h₀, takeWord_rest h₁, takeWord_rest h₂, takeWord_rest h₃, takeWord_rest h₄,
    takeWord_rest h₅, takeWord_rest h₆, takeWord_rest h₇]
  simp [Word.listToBytes]

theorem takeArray_rest {cursor after : Cursor} {bound : Handle × Array Word}
    (h : cursor.takeArray = .ok (bound, after)) :
    ∃ entry : Entry, entry.binding = bound ∧ cursor.rest = entry.bytes ++ after.rest := by
  rw [takeArray] at h
  obtain ⟨⟨handle, c₁⟩, hhandle, h⟩ := bind_eq_ok.1 h
  obtain ⟨⟨length, c₂⟩, hlength, h⟩ := bind_eq_ok.1 h
  obtain ⟨⟨words, c₃⟩, hwords, h⟩ := bind_eq_ok.1 h
  cases h
  obtain ⟨hcount, hrest, -⟩ := takeWords_eq_ok.1 hwords
  refine ⟨⟨handle, length, words, hcount⟩, rfl, ?_⟩
  rw [takeWord_rest hhandle, takeWord_rest hlength, hrest]
  simp only [Entry.bytes, List.append_assoc]

/-- Arrays that were read stand in front of the rest, with handles new to the table. -/
theorem takeArrays_rest {count : Nat} {cursor after : Cursor} {arrays table : ArrayTable}
    (h : takeArrays count cursor arrays = .ok (table, after)) :
    ∃ entries : List Entry, entries.length = count ∧
      cursor.rest = entries.flatMap Entry.bytes ++ after.rest ∧
      entries.Pairwise (fun x y => x.handle ≠ y.handle) ∧
      (∀ entry ∈ entries, entry.handle ∉ arrays) ∧
      table = arrays.addEntries (entries.map Entry.binding) := by
  induction count generalizing cursor arrays with
  | zero =>
    cases h
    exact ⟨[], rfl, rfl, .nil, by simp, rfl⟩
  | succ count ih =>
    rw [takeArrays] at h
    obtain ⟨⟨bound, c₁⟩, hfirst, h⟩ := bind_eq_ok.1 h
    obtain ⟨entry, rfl, hrest⟩ := takeArray_rest hfirst
    dsimp only at h
    split at h
    · cases h
    · next hnew =>
      obtain ⟨entries, hlength, hrest', hdistinct, hfresh, htable⟩ := ih h
      refine ⟨entry :: entries, by rw [List.length_cons, hlength], ?_, ?_, ?_, htable⟩
      · rw [hrest, hrest', List.flatMap_cons, List.append_assoc]
      · -- the later handles are new to a table that has this one
        refine List.pairwise_cons.2 ⟨?_, hdistinct⟩
        intro later hmem heq
        apply hfresh later hmem
        rw [← heq]
        exact Std.ExtTreeMap.mem_insert_self
      · intro later hmem
        rcases List.mem_cons.1 hmem with rfl | hmem
        · exact fun hold => hnew (Std.ExtTreeMap.mem_iff_contains.1 hold)
        · intro hold
          exact hfresh later hmem (Std.ExtTreeMap.mem_insert.2 (.inr hold))

end Cursor

/-! ## Reading -/

/-- A file that can be read is the bytes of a layout. -/
theorem exists_layout_of_decode {b : Bytes} {s : Snapshot} (h : decode b = .ok s) :
    ∃ f : Layout, f.bytes = b ∧ f.Describes s := by
  rw [decode] at h
  obtain ⟨c₀, hmagic, h⟩ := Cursor.bind_eq_ok.1 h
  obtain ⟨c₁, hversion, h⟩ := Cursor.bind_eq_ok.1 h
  obtain ⟨⟨ip, c₂⟩, hip, h⟩ := Cursor.bind_eq_ok.1 h
  obtain ⟨⟨registers, c₃⟩, hregisters, h⟩ := Cursor.bind_eq_ok.1 h
  obtain ⟨⟨nextHandle, c₄⟩, hnext, h⟩ := Cursor.bind_eq_ok.1 h
  obtain ⟨⟨count, c₅⟩, hcount, h⟩ := Cursor.bind_eq_ok.1 h
  obtain ⟨⟨arrays, c₆⟩, harrays, h⟩ := Cursor.bind_eq_ok.1 h
  dsimp only at h
  split at h
  · cases h
  next hend =>
  split at h
  · cases h
  next hprogram =>
  cases h
  obtain ⟨entries, hlength, hentries, hdistinct, -, rfl⟩ := Cursor.takeArrays_rest harrays
  have hzero : ∃ entry ∈ entries, entry.handle = 0 := by
    have hlive : (0 : Handle) ∈ ArrayTable.addEntries ∅ (entries.map Entry.binding) := by
      simpa using hprogram
    obtain ⟨array, harray⟩ := Option.isSome_iff_exists.1
      (Std.ExtTreeMap.mem_iff_isSome_getElem?.1 hlive)
    obtain ⟨entry, hmem, hhandle, -⟩ := (Entry.getElem?_addEntries hdistinct 0 array).1 harray
    exact ⟨entry, hmem, hhandle⟩
  refine ⟨⟨ip, registers, nextHandle, count, entries, hlength, hdistinct, hzero⟩, ?_,
    Layout.describes_snapshot _⟩
  -- put the fields together again in the order in which they were found
  have hall : b = _ := Cursor.takeMagic_rest hmagic
  have hnothing : c₆.rest = [] := by simpa using hend
  rw [hall, Cursor.takeVersion_rest hversion, Cursor.takeWord_rest hip,
    Cursor.takeRegisters_rest hregisters, Cursor.takeWord_rest hnext,
    Cursor.takeWord_rest hcount, hentries, hnothing]
  simp [Layout.bytes, magic, version]

theorem decode_bytes (f : Layout) : decode f.bytes = .ok f.snapshot := by
  have hcount : (f.entries.map Entry.binding).length < UInt32.size := by
    rw [List.length_map, f.length_entries]
    exact f.count.toNat_lt
  have hsizes : ∀ entry ∈ f.entries.map Entry.binding, entry.2.size < UInt32.size := by
    intro bound hmem
    obtain ⟨entry, -, rfl⟩ := List.mem_map.1 hmem
    exact entry.size_binding_lt
  have hdistinct : (f.entries.map Entry.binding).Pairwise fun x y => x.1 ≠ y.1 :=
    List.pairwise_map.2 f.distinct
  have hprogram : ∃ entry ∈ f.entries.map Entry.binding, entry.1 = 0 := by
    obtain ⟨entry, hmem, hzero⟩ := f.program
    exact ⟨entry.binding, List.mem_map_of_mem hmem, hzero⟩
  rw [Layout.bytes_eq_layOut, decode_layOut _ _ _ hcount hsizes hdistinct hprogram]
  rfl

/-- Reading accepts exactly the files of the format: "UMST", version 1, the pointer, eight
    registers, the counter, a number of entries and so many entries with distinct handles, 0 among
    them, and nothing after that. What is read has these fields and binds each handle to its words.
    Written again, it is the file with its entries rearranged by ascending handles: as long as
    before, and the same if and only if they were in that order. -/
theorem decode_eq_ok_iff_layout (b : Bytes) :
    (∀ s, decode b = .ok s ↔ ∃ f : Layout, f.bytes = b ∧ f.Describes s) ∧
    ∀ f : Layout, f.bytes = b → ∃ s, decode b = .ok s ∧ f.Describes s ∧
      s.encode = f.sorted.bytes ∧ s.encode.length = b.length ∧
      (s.encode = b ↔ f.entries.Pairwise fun x y => x.handle < y.handle) := by
  constructor
  · intro s
    refine ⟨exists_layout_of_decode, ?_⟩
    rintro ⟨f, rfl, hdescribes⟩
    rw [decode_bytes, hdescribes.eq_snapshot]
  · rintro f rfl
    have hdescribes := f.describes_snapshot
    refine ⟨f.snapshot, decode_bytes f, hdescribes, hdescribes.encode_eq, ?_⟩
    rw [hdescribes.encode_eq]
    exact ⟨f.length_bytes_sorted, f.bytes_sorted_eq_iff⟩

/-- A file that lists the program last. -/
def programLast : Layout where
  ip := 0
  registers := .zero
  counter := 9
  count := 2
  entries := [⟨5, 1, [0xFFFFFFFF], rfl⟩, ⟨0, 0, [], rfl⟩]
  length_entries := rfl
  distinct := by simp
  program := by simp

theorem decode_eq_ok_iff_layout_programLast :
    ∃ s, decode programLast.bytes = .ok s ∧ s.arrays[(5 : Handle)]? = some #[0xFFFFFFFF] ∧
      s.encode.length = programLast.bytes.length ∧ s.encode ≠ programLast.bytes := by
  obtain ⟨s, hread, hdescribes, -, hlength, hsame⟩ :=
    (decode_eq_ok_iff_layout programLast.bytes).2 programLast rfl
  refine ⟨s, hread, ?_, hlength, ?_⟩
  · exact (hdescribes.arrays 5 _).2 ⟨⟨5, 1, [0xFFFFFFFF], rfl⟩, List.mem_cons_self, rfl, rfl⟩
  · intro heq
    have hascending := hsame.1 heq
    exact absurd ((List.pairwise_cons.1 hascending).1 _ List.mem_cons_self) (by decide)

end Snapshot

end UniversalMachine
