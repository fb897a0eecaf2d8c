/-
  UniversalMachine.Proofs.ImageLayout

  One layout for words wherever they are stored.

  A program image is nothing but words, so every list of words has one image, and every
  byte string that is a whole number of words is the image of one list
  (`Image.parse_eq_ok_iff`). Each word is four bytes of the image, most significant
  first (`Word.take_drop_listToBytes`, `Word.bigEndian_toBytes`).

  A snapshot file holds the words of each array as one block. The block starts where
  `Snapshot.wordsAt` says, which depends on the arrays of smaller handles alone, since
  these are written first (`ArrayTable.exists_toList_eq`). It is the image of the array
  (`Snapshot.block_encode`), and it is read as an image is
  (`Snapshot.Cursor.takeWords_eq_ok_iff_parse`).
-/

import UniversalMachine.Image
import UniversalMachine.Proofs.CanonicalFile

namespace UniversalMachine

namespace Word

/-- The number that bytes write out in base 256, most significant digit first. -/
def bigEndian (bytes : Bytes) : Nat :=
  bytes.foldl (fun n byte => 256 * n + byte.toNat) 0

theorem bigEndian_toBytes (w : Word) : bigEndian (toBytes w) = w.toNat := by
  have hlt := w.toNat_lt
  simp only [bigEndian, toBytes, List.foldl_cons, List.foldl_nil, UInt8.toNat_ofNat']
  omega

theorem listToBytes_cons (w : Word) (words : List Word) :
    listToBytes (w :: words) = toBytes w ++ listToBytes words := rfl

/-- The bytes of a word stand in its place, four for each word before it. -/
theorem take_drop_listToBytes {words : List Word} {i : Nat} {w : Word} (h : words[i]? = some w) :
    ((listToBytes words).drop (4 * i)).take 4 = toBytes w := by
  induction words generalizing i with
  | nil => cases h
  | cons first words ih =>
    rw [listToBytes_cons]
    cases i with
    | zero =>
      cases h
      exact List.take_left' (length_toBytes _)
    | succ i =>
      have hskip : 4 * (i + 1) = (toBytes first).length + 4 * i := by
        rw [length_toBytes]
        omega
      rw [hskip, List.drop_length_add_append]
      exact ih h

end Word

namespace Image

/-! ## Images -/

theorem parse_eq_ok_iff {b : Bytes} {words : List Word} :
    parse b = .ok words ↔ ofProgram words = b := by
  rw [parse, ofProgram]
  constructor
  · intro h
    split at h
    · next hwhole =>
      cases h
      exact Word.listToBytes_listOfBytes b hwhole
    · cases h
  · rintro rfl
    have hwhole : (Word.listToBytes words).length % 4 = 0 := by
      rw [Word.length_listToBytes]
      omega
    rw [if_pos hwhole, Word.listOfBytes_listToBytes]

theorem parse_eq_error_iff {b : Bytes} {e : ImageError} :
    parse b = .error e ↔ e = .trailingBytes b.length ∧ ¬4 ∣ b.length := by
  rw [parse, Nat.dvd_iff_mod_eq_zero]
  split
  · next hwhole => exact ⟨nofun, fun h => absurd hwhole h.2⟩
  · next hrest =>
    constructor
    · intro h
      cases h
      exact ⟨rfl, hrest⟩
    · rintro ⟨rfl, -⟩
      rfl

/-- The words of an image are its bytes, four by four, each group read as a number. -/
theorem toNat_of_parse {b : Bytes} {words : List Word} (h : parse b = .ok words) {i : Nat}
    {w : Word} (hw : words[i]? = some w) :
    w.toNat = Word.bigEndian ((b.drop (4 * i)).take 4) := by
  obtain rfl := parse_eq_ok_iff.1 h
  rw [ofProgram, Word.take_drop_listToBytes hw, Word.bigEndian_toBytes]

end Image

/-! ## Blocks of words in snapshot files -/

/-- The arrays of smaller handles, then this one, then the rest. -/
theorem ArrayTable.exists_toList_eq {arrays : ArrayTable} {handle : Handle} {array : Array Word}
    (h : arrays[handle]? = some array) :
    ∃ later, arrays.toList =
      arrays.toList.filter (fun entry => entry.1 < handle) ++ (handle, array) :: later := by
  obtain ⟨earlier, later, hlist⟩ :=
    List.append_of_mem (Std.ExtTreeMap.mem_toList_iff_getElem?_eq_some.2 h)
  have hascending := arrays.ascending_toList
  rw [hlist, List.pairwise_append, List.pairwise_cons] at hascending
  obtain ⟨-, ⟨hlater, -⟩, hearlier⟩ := hascending
  have hkept : earlier.filter (fun entry => entry.1 < handle) = earlier := by
    rw [List.filter_eq_self]
    intro entry hentry
    exact decide_eq_true (hearlier entry hentry (handle, array) List.mem_cons_self)
  have hdropped : later.filter (fun entry => entry.1 < handle) = [] := by
    rw [List.filter_eq_nil_iff]
    intro entry hentry hlt
    exact UInt32.lt_asymm (hlater entry hentry) (of_decide_eq_true hlt)
  have hself : decide (handle < handle) = false := decide_eq_false (UInt32.lt_irrefl handle)
  refine ⟨later, ?_⟩
  rw [hlist, List.filter_append, List.filter_cons, hkept, hdropped, hself]
  simp

namespace Snapshot

/-- The arrays that stand in a file before that of a handle. -/
def arraysBelow (s : Snapshot) (handle : Handle) : List (Handle × Array Word) :=
  s.arrays.toList.filter fun entry => entry.1 < handle

/-- Where the words of an array start in a file: after the 49 bytes in front of all arrays, after
    the arrays of smaller handles, each of them 8 bytes and 4 for every word, and after the handle
    and the length of this one. -/
def wordsAt (s : Snapshot) (handle : Handle) : Nat :=
  49 + (8 * (s.arraysBelow handle).length +
    4 * (s.arraysBelow handle).foldr (fun entry count => entry.2.size + count) 0) + 8

theorem exists_encode_eq {s : Snapshot} {handle : Handle} {array : Array Word}
    (h : s.arrays[handle]? = some array) :
    ∃ before after, s.encode = before ++ (Image.ofProgram array.toList ++ after) ∧
      before.length = s.wordsAt handle := by
  obtain ⟨later, hlist⟩ := ArrayTable.exists_toList_eq h
  refine ⟨s.preamble ++
      (s.arraysBelow handle).flatMap (fun entry => encodeArray entry.1 entry.2) ++
      (Word.toBytes handle ++ Word.toBytes (.ofNat array.size)),
    later.flatMap fun entry => encodeArray entry.1 entry.2, ?_, ?_⟩
  · rw [encode_eq_preamble_append, hlist, List.flatMap_append, List.flatMap_cons, encodeArray]
    simp only [arraysBelow, Image.ofProgram, List.append_assoc]
  · simp only [List.length_append, length_preamble, length_flatMap_encodeArray,
      Word.length_toBytes]
    rfl

/-- The words of an array stand in a file as they would in an image. -/
theorem block_encode {s : Snapshot} {handle : Handle} {array : Array Word}
    (h : s.arrays[handle]? = some array) :
    (s.encode.drop (s.wordsAt handle)).take (4 * array.size) = Image.ofProgram array.toList := by
  obtain ⟨before, after, hencode, hbefore⟩ := exists_encode_eq h
  have hlength : (Image.ofProgram array.toList).length = 4 * array.size := by
    rw [Image.ofProgram, Word.length_listToBytes, Array.length_toList]
  rw [hencode, List.drop_left' hbefore, List.take_left' hlength]

/-- The reader of snapshot files takes the words of an array as those of an image. -/
theorem Cursor.takeWords_eq_ok_iff_parse {cursor after : Cursor} {count : Nat}
    {words : List Word} :
    cursor.takeWords count = .ok (words, after) ↔
      ∃ block, cursor.take (4 * count) = .ok (block, after) ∧ Image.parse block = .ok words := by
  rw [takeWords_eq_ok]
  constructor
  · rintro ⟨rfl, hrest, hoffset⟩
    exact ⟨Image.ofProgram words,
      take_eq_ok.2 ⟨Word.length_listToBytes words, hrest, hoffset⟩, Image.parse_eq_ok_iff.2 rfl⟩
  · rintro ⟨block, htake, hparse⟩
    obtain ⟨hlength, hrest, hoffset⟩ := take_eq_ok.1 htake
    obtain rfl := Image.parse_eq_ok_iff.1 hparse
    have hcount := Word.length_listToBytes words
    exact ⟨by rw [Image.ofProgram] at hlength; omega, hrest, hoffset⟩

end Snapshot

namespace Image

/-- Images and lists of words are in bijection: an image is read as a list if and only if the list
    is written as that image. A byte string is refused if and only if its length is not a multiple
    of four, and the refusal tells the length. The words are read from four bytes each, most
    significant first.

    Snapshot files have the same layout: the block of words of each array is the image of the array,
    and reads as such, and the reader of these files takes words as an image has them. -/
theorem one_layout_for_words :
    (∀ b words, parse b = .ok words ↔ ofProgram words = b) ∧
    (∀ b e, parse b = .error e ↔ e = .trailingBytes b.length ∧ ¬4 ∣ b.length) ∧
    (∀ b words, parse b = .ok words → ∀ i w, words[i]? = some w →
      w.toNat = Word.bigEndian ((b.drop (4 * i)).take 4)) ∧
    (∀ (s : Snapshot) (handle : Handle) (array : Array Word), s.arrays[handle]? = some array →
      (s.encode.drop (s.wordsAt handle)).take (4 * array.size) = ofProgram array.toList ∧
      parse ((s.encode.drop (s.wordsAt handle)).take (4 * array.size)) = .ok array.toList) ∧
    ∀ (cursor after : Snapshot.Cursor) (count : Nat) (words : List Word),
      cursor.takeWords count = .ok (words, after) ↔
        ∃ block, cursor.take (4 * count) = .ok (block, after) ∧ parse block = .ok words := by
  refine ⟨fun _ _ => parse_eq_ok_iff, fun _ _ => parse_eq_error_iff,
    fun _ _ h _ _ => toNat_of_parse h, ?_,
    fun _ _ _ _ => Snapshot.Cursor.takeWords_eq_ok_iff_parse⟩
  intro s handle array h
  have hblock := Snapshot.block_encode h
  exact ⟨hblock, parse_eq_ok_iff.2 hblock.symm⟩

theorem one_layout_for_words_threeArrays :
    parse [0x70, 0, 0, 0, 0x12, 0x34, 0x56, 0x78] = .ok [0x70000000, 0x12345678] ∧
    (0x12345678 : Word).toNat = Word.bigEndian [0x12, 0x34, 0x56, 0x78] ∧
    (Snapshot.threeArrays.encode.drop 81).take 12 = [0, 0, 0, 1, 0, 0, 0, 2, 255, 255, 255, 255] ∧
    parse ((Snapshot.threeArrays.encode.drop 81).take 12) = .ok [1, 2, 0xFFFFFFFF] := by
  obtain ⟨hiff, -, hwords, hblocks, -⟩ := one_layout_for_words
  have hread : parse [0x70, 0, 0, 0, 0x12, 0x34, 0x56, 0x78] = .ok [0x70000000, 0x12345678] :=
    (hiff _ _).2 (by decide)
  have hat : Snapshot.threeArrays.wordsAt 7 = 81 := by decide
  obtain ⟨hblock, hparse⟩ := hblocks Snapshot.threeArrays 7 #[1, 2, 0xFFFFFFFF] (by decide)
  rw [hat] at hblock hparse
  exact ⟨hread, hwords _ _ hread 1 _ rfl, hblock, hparse⟩

end Image

end UniversalMachine
