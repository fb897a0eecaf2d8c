/-
  UniversalMachine.Proofs.Decoding

  Text in bytes: what is decoded line by line, and what is read back.

  A newline byte carries on no sequence. It leaves a damaged place if one is under
  way, and is read as itself. No other byte completes a newline character, since a
  sequence of several bytes stands for a character past ASCII
  (`Sequence.PastAscii`). So it makes no difference whether output is decoded and
  then split into lines or split into lines that are then decoded, however damaged
  the output is (`pieces_decodeLossy`). The bytes of a text are read back as that
  text (`decode?_encode`).
-/

import Mathlib.Tactic.Common
import UniversalMachine.Text.Lines

namespace UniversalMachine.Text

/-! ## Pieces -/

section Pieces

variable {α : Type} [DecidableEq α] {separator : α}

theorem exists_pieces (separator : α) (xs : List α) :
    ∃ first rest, pieces separator xs = first :: rest := by
  cases xs with
  | nil => exact ⟨[], [], rfl⟩
  | cons a xs =>
    rw [pieces]
    split
    · exact ⟨_, _, rfl⟩
    · cases pieces separator xs with
      | nil => exact ⟨_, _, rfl⟩
      | cons first rest => exact ⟨_, _, rfl⟩

/-- What has no separator in it lengthens the first piece of what follows. -/
theorem pieces_append {xs ys first : List α} {rest : List (List α)} (h : separator ∉ xs)
    (hys : pieces separator ys = first :: rest) :
    pieces separator (xs ++ ys) = (xs ++ first) :: rest := by
  induction xs with
  | nil => exact hys
  | cons a xs ih =>
    have ha : a ≠ separator := fun heq => h (heq ▸ List.mem_cons_self)
    have hxs : separator ∉ xs := fun hmem => h (List.mem_cons_of_mem a hmem)
    rw [List.cons_append, pieces, if_neg ha, ih hxs]
    rfl

theorem pieces_of_not_mem {xs : List α} (h : separator ∉ xs) : pieces separator xs = [xs] := by
  have hnil : pieces separator ([] : List α) = [[]] := rfl
  have := pieces_append h hnil
  rwa [List.append_nil] at this

theorem pieces_append_cons {xs : List α} (h : separator ∉ xs) (ys : List α) :
    pieces separator (xs ++ separator :: ys) = xs :: pieces separator ys := by
  have hys : pieces separator (separator :: ys) = [] :: pieces separator ys := if_pos rfl
  rw [pieces_append h hys, List.append_nil]

end Pieces

namespace Utf8

/-! ## Bytes of a sequence -/

theorem opening_one {b : UInt8} (h : b.toNat < 0x80) :
    opening b = ([some (Char.ofNat b.toNat)], none) :=
  if_pos (UInt8.lt_iff_toNat_lt.2 h)

/-- The first byte decides by its value how many more bytes there are and where the next of
    them may lie. -/
theorem opening_eq (b : UInt8) :
    opening b =
      if b.toNat < 0x80 then ([some (Char.ofNat b.toNat)], none)
      else if b.toNat < 0xC2 then ([none], none)
      else if b.toNat < 0xE0 then ([], some ⟨b.toNat - 0xC0, 0, 0x80, 0xBF⟩)
      else if b.toNat < 0xF0 then
        ([], some ⟨b.toNat - 0xE0, 1, if b.toNat = 0xE0 then 0xA0 else 0x80,
          if b.toNat = 0xED then 0x9F else 0xBF⟩)
      else if b.toNat < 0xF5 then
        ([], some ⟨b.toNat - 0xF0, 2, if b.toNat = 0xF0 then 0x90 else 0x80,
          if b.toNat = 0xF4 then 0x8F else 0xBF⟩)
      else ([none], none) := by
  simp only [opening, UInt8.lt_iff_toNat_lt, ← UInt8.toNat_inj]
  rfl

/-- The sequence stands for a character past ASCII, whatever bytes complete it: what comes
    before the last byte is at least 2, and the last byte adds six bits. -/
structure Sequence.PastAscii (s : Sequence) : Prop where
  low_ge : 0x80 ≤ s.low.toNat
  value_ge : 2 ≤ s.value ∨ 0 < s.further ∧ (0 < s.value ∨ 0x82 ≤ s.low.toNat)

/-- The first byte is a character, or damaged, or it begins a longer sequence. -/
theorem opening_cases (b : UInt8) :
    (b.toNat < 0x80 ∧ opening b = ([some (Char.ofNat b.toNat)], none)) ∨
    opening b = ([none], none) ∨
    ∃ s, opening b = ([], some s) ∧ s.PastAscii := by
  rw [opening_eq]
  split
  · next hascii => exact .inl ⟨hascii, rfl⟩
  split
  · exact .inr (.inl rfl)
  next hstray =>
  split
  · exact .inr (.inr ⟨_, rfl, by simp, .inl (by simp; omega)⟩)
  next htwo =>
  -- of longer sequences, the first that is not overlong keeps clear of zero by its low bound
  split
  · refine .inr (.inr ⟨_, rfl, ?_⟩)
    by_cases hE0 : b.toNat = 0xE0
    · exact ⟨by simp [hE0], .inr (by simp [hE0])⟩
    · exact ⟨by simp [hE0], .inr ⟨by simp, .inl (by simp; omega)⟩⟩
  next hthree =>
  split
  · refine .inr (.inr ⟨_, rfl, ?_⟩)
    by_cases hF0 : b.toNat = 0xF0
    · exact ⟨by simp [hF0], .inr (by simp [hF0])⟩
    · exact ⟨by simp [hF0], .inr ⟨by simp, .inl (by simp; omega)⟩⟩
  · exact .inr (.inl rfl)

theorem step_of_within {s : Sequence} {b : UInt8} (hlow : s.low.toNat ≤ b.toNat)
    (hhigh : b.toNat ≤ s.high.toNat) :
    step (some s) b =
      match s.further with
      | 0 => ([some (Char.ofNat (s.value * 64 + (b.toNat - 0x80)))], none)
      | further + 1 => ([], some ⟨s.value * 64 + (b.toNat - 0x80), further, 0x80, 0xBF⟩) :=
  if_pos ⟨UInt8.le_iff_toNat_le.2 hlow, UInt8.le_iff_toNat_le.2 hhigh⟩

theorem step_of_not_within {s : Sequence} {b : UInt8}
    (h : b.toNat < s.low.toNat ∨ s.high.toNat < b.toNat) :
    step (some s) b = (none :: (opening b).1, (opening b).2) := by
  refine if_neg fun hwithin => ?_
  have hlow := UInt8.le_iff_toNat_le.1 hwithin.1
  have hhigh := UInt8.le_iff_toNat_le.1 hwithin.2
  omega

/-- The sequence under way, if there is one, stands for a character past ASCII. -/
def Sound (state : Option Sequence) : Prop :=
  ∀ s, state = some s → s.PastAscii

theorem sound_none : Sound none := nofun

theorem ofNat_ne_newline {n : Nat} (h : n ≠ 10) : Char.ofNat n ≠ '\n' := by
  intro heq
  by_cases hvalid : n.isValidChar
  · rw [Char.ofNat, dif_pos hvalid] at heq
    have hn : n = 10 := congrArg Char.toNat heq
    exact h hn
  · rw [Char.ofNat, dif_neg hvalid] at heq
    have hzero : 0 = 10 := congrArg Char.toNat heq
    cases hzero

/-- Reading on from a first byte. -/
theorem sound_opening (b : UInt8) : Sound (opening b).2 := by
  obtain ⟨-, h⟩ | h | ⟨s, h, hs⟩ := opening_cases b
  · rw [h]
    exact sound_none
  · rw [h]
    exact sound_none
  · rw [h]
    intro t ht
    obtain rfl := Option.some.inj ht
    exact hs

theorem newline_not_mem_opening {b : UInt8} (hb : b ≠ newline) : some '\n' ∉ (opening b).1 := by
  have hne : b.toNat ≠ 10 := fun h => hb (UInt8.toNat_inj.1 h)
  obtain ⟨-, h⟩ | h | ⟨s, h, -⟩ := opening_cases b
  · rw [h, List.mem_singleton, Option.some_inj]
    exact (ofNat_ne_newline hne).symm
  · rw [h, List.mem_singleton]
    exact nofun
  · rw [h]
    exact List.not_mem_nil

/-- A byte leaves a sound state, and completes no newline unless it is one. -/
theorem step_cases {state : Option Sequence} (h : Sound state) {b : UInt8} (hb : b ≠ newline) :
    Sound (step state b).2 ∧ some '\n' ∉ (step state b).1 := by
  cases state with
  | none => exact ⟨sound_opening b, newline_not_mem_opening hb⟩
  | some s =>
    obtain ⟨hlow, hvalue⟩ := h s rfl
    by_cases hwithin : s.low.toNat ≤ b.toNat ∧ b.toNat ≤ s.high.toNat
    · rw [step_of_within hwithin.1 hwithin.2]
      cases hfurther : s.further with
      | zero =>
        refine ⟨sound_none, ?_⟩
        rw [List.mem_singleton, Option.some_inj]
        exact (ofNat_ne_newline (by omega)).symm
      | succ further =>
        refine ⟨?_, List.not_mem_nil⟩
        intro t ht
        obtain rfl := Option.some.inj ht
        refine ⟨by simp, .inl ?_⟩
        dsimp only
        omega
    · rw [step_of_not_within (by omega)]
      refine ⟨sound_opening b, ?_⟩
      rw [List.mem_cons, not_or]
      exact ⟨nofun, newline_not_mem_opening hb⟩

/-- A newline ends the sequence under way and is read as itself. -/
theorem scan_newline {state : Option Sequence} (h : Sound state) (rest : Bytes) :
    scan state (newline :: rest) = scan state [] ++ some '\n' :: scan none rest := by
  have hopening : opening newline = ([some '\n'], none) := opening_one (by decide)
  cases state with
  | none =>
    show (opening newline).1 ++ scan (opening newline).2 rest = _
    rw [hopening]
    rfl
  | some s =>
    have hlow : newline.toNat < s.low.toNat := Nat.lt_of_lt_of_le (by decide) (h s rfl).low_ge
    show (step (some s) newline).1 ++ scan (step (some s) newline).2 rest = _
    rw [step_of_not_within (.inl hlow), hopening]
    rfl

theorem scan_cons (state : Option Sequence) (b : UInt8) (rest : Bytes) :
    scan state (b :: rest) = (step state b).1 ++ scan (step state b).2 rest := by
  cases state with
  | none => rfl
  | some s => rfl

/-! ## Reading back -/

theorem scan_last {s : Sequence} {b : UInt8} (hfurther : s.further = 0)
    (hlow : s.low.toNat ≤ b.toNat) (hhigh : b.toNat ≤ s.high.toNat) (rest : Bytes) :
    scan (some s) (b :: rest) =
      some (Char.ofNat (s.value * 64 + (b.toNat - 0x80))) :: scan none rest := by
  rw [scan_cons, step_of_within hlow hhigh, hfurther]
  rfl

theorem scan_carryOn {s : Sequence} {b : UInt8} {further : Nat} (hfurther : s.further = further + 1)
    (hlow : s.low.toNat ≤ b.toNat) (hhigh : b.toNat ≤ s.high.toNat) (rest : Bytes) :
    scan (some s) (b :: rest) =
      scan (some ⟨s.value * 64 + (b.toNat - 0x80), further, 0x80, 0xBF⟩) rest := by
  rw [scan_cons, step_of_within hlow hhigh, hfurther]
  rfl

theorem scan_two {b : UInt8} (hlow : 0xC2 ≤ b.toNat) (hhigh : b.toNat < 0xE0) (rest : Bytes) :
    scan none (b :: rest) = scan (some ⟨b.toNat - 0xC0, 0, 0x80, 0xBF⟩) rest := by
  have h : opening b = ([], some ⟨b.toNat - 0xC0, 0, 0x80, 0xBF⟩) := by
    rw [opening_eq, if_neg (by omega), if_neg (by omega), if_pos hhigh]
  rw [scan_cons, step, h]
  rfl

theorem scan_three {b : UInt8} (hlow : 0xE0 ≤ b.toNat) (hhigh : b.toNat < 0xF0) (rest : Bytes) :
    scan none (b :: rest) =
      scan (some ⟨b.toNat - 0xE0, 1, if b.toNat = 0xE0 then 0xA0 else 0x80,
        if b.toNat = 0xED then 0x9F else 0xBF⟩) rest := by
  have h := opening_eq b
  rw [if_neg (by omega), if_neg (by omega), if_neg (by omega), if_pos hhigh] at h
  rw [scan_cons, step, h]
  rfl

theorem scan_four {b : UInt8} (hlow : 0xF0 ≤ b.toNat) (hhigh : b.toNat < 0xF5) (rest : Bytes) :
    scan none (b :: rest) =
      scan (some ⟨b.toNat - 0xF0, 2, if b.toNat = 0xF0 then 0x90 else 0x80,
        if b.toNat = 0xF4 then 0x8F else 0xBF⟩) rest := by
  have h := opening_eq b
  rw [if_neg (by omega), if_neg (by omega), if_neg (by omega), if_neg (by omega),
    if_pos hhigh] at h
  rw [scan_cons, step, h]
  rfl

theorem toNat_ofNat_of_lt {n : Nat} (h : n < 256) : (UInt8.ofNat n).toNat = n := by
  rw [UInt8.toNat_ofNat']
  omega

/-- The bytes of a character are read back. -/
theorem scan_encodeChar (c : Char) (rest : Bytes) :
    scan none (String.utf8EncodeChar c ++ rest) = some c :: scan none rest := by
  have hvalid : c.toNat < 0xD800 ∨ 0xDFFF < c.toNat ∧ c.toNat < 0x110000 := c.valid
  have hc : Char.ofNat c.toNat = c := c.ofNat_toNat
  have hval : c.val.toNat = c.toNat := rfl
  rw [String.utf8EncodeChar, hval]
  generalize c.toNat = v at hvalid hc
  split
  · have h₀ : (UInt8.ofNat v).toNat = v := toNat_ofNat_of_lt (by omega)
    rw [List.singleton_append, scan_cons, step, opening_one (by omega), h₀, hc]
    rfl
  split
  · have h₀ : (UInt8.ofNat (v / 64 % 32 + 192)).toNat = v / 64 + 192 := by
      rw [toNat_ofNat_of_lt (by omega)]
      omega
    have h₁ : (UInt8.ofNat (v % 64 + 128)).toNat = v % 64 + 128 := toNat_ofNat_of_lt (by omega)
    have hvalue : (v / 64 + 192 - 0xC0) * 64 + (v % 64 + 128 - 0x80) = v := by omega
    rw [List.cons_append, List.singleton_append, scan_two (by omega) (by omega),
      scan_last rfl (by simp; omega) (by simp; omega), h₀, h₁, hvalue, hc]
  split
  · have h₀ : (UInt8.ofNat (v / 4096 % 16 + 224)).toNat = v / 4096 + 224 := by
      rw [toNat_ofNat_of_lt (by omega)]
      omega
    have h₁ : (UInt8.ofNat (v / 64 % 64 + 128)).toNat = v / 64 % 64 + 128 :=
      toNat_ofNat_of_lt (by omega)
    have h₂ : (UInt8.ofNat (v % 64 + 128)).toNat = v % 64 + 128 := toNat_ofNat_of_lt (by omega)
    -- no overlong form, and no surrogate
    have hlow : (if v / 4096 + 224 = 0xE0 then 0xA0 else 0x80 : UInt8).toNat ≤
        v / 64 % 64 + 128 := by
      split
      · simp; omega
      · simp
    have hhigh : v / 64 % 64 + 128 ≤
        (if v / 4096 + 224 = 0xED then 0x9F else 0xBF : UInt8).toNat := by
      split
      · simp; omega
      · simp; omega
    have hvalue : ((v / 4096 + 224 - 0xE0) * 64 + (v / 64 % 64 + 128 - 0x80)) * 64 +
        (v % 64 + 128 - 0x80) = v := by omega
    rw [List.cons_append, List.cons_append, List.singleton_append,
      scan_three (by omega) (by omega), h₀, scan_carryOn rfl (by rwa [h₁]) (by rwa [h₁]), h₁,
      scan_last rfl (by simp; omega) (by simp; omega), h₂, hvalue, hc]
  · have h₀ : (UInt8.ofNat (v / 262144 % 8 + 240)).toNat = v / 262144 + 240 := by
      rw [toNat_ofNat_of_lt (by omega)]
      omega
    have h₁ : (UInt8.ofNat (v / 4096 % 64 + 128)).toNat = v / 4096 % 64 + 128 :=
      toNat_ofNat_of_lt (by omega)
    have h₂ : (UInt8.ofNat (v / 64 % 64 + 128)).toNat = v / 64 % 64 + 128 :=
      toNat_ofNat_of_lt (by omega)
    have h₃ : (UInt8.ofNat (v % 64 + 128)).toNat = v % 64 + 128 := toNat_ofNat_of_lt (by omega)
    -- no overlong form, and nothing past the last character
    have hlow : (if v / 262144 + 240 = 0xF0 then 0x90 else 0x80 : UInt8).toNat ≤
        v / 4096 % 64 + 128 := by
      split
      · simp; omega
      · simp
    have hhigh : v / 4096 % 64 + 128 ≤
        (if v / 262144 + 240 = 0xF4 then 0x8F else 0xBF : UInt8).toNat := by
      split
      · simp; omega
      · simp; omega
    have hvalue : (((v / 262144 + 240 - 0xF0) * 64 + (v / 4096 % 64 + 128 - 0x80)) * 64 +
        (v / 64 % 64 + 128 - 0x80)) * 64 + (v % 64 + 128 - 0x80) = v := by omega
    rw [List.cons_append, List.cons_append, List.cons_append, List.singleton_append,
      scan_four (by omega) (by omega), h₀, scan_carryOn rfl (by rwa [h₁]) (by rwa [h₁]), h₁,
      scan_carryOn rfl (by simp; omega) (by simp; omega), h₂,
      scan_last rfl (by simp; omega) (by simp; omega), h₃, hvalue, hc]

theorem scan_encode (text : List Char) (rest : Bytes) :
    scan none (text.flatMap String.utf8EncodeChar ++ rest) =
      text.map some ++ scan none rest := by
  induction text with
  | nil => rfl
  | cons c text ih =>
    rw [List.flatMap_cons, List.append_assoc, scan_encodeChar, ih]
    rfl

theorem mapM_id_map_some (text : List Char) : (text.map some).mapM id = some text := by
  induction text with
  | nil => rfl
  | cons c text ih =>
    rw [List.map_cons, List.mapM_cons, ih]
    rfl

/-- The bytes of a text are read back as the text. -/
theorem decode?_encode (text : String) : decode? (encode text) = some text.toList := by
  have h := scan_encode text.toList []
  rw [List.append_nil, scan, List.append_nil] at h
  rw [decode?, encode, h, mapM_id_map_some]

/-- The newline byte stands for the newline character, and nothing else does. -/
theorem newline_mem_scan_iff {state : Option Sequence} (h : Sound state) {bytes : Bytes} :
    some '\n' ∈ scan state bytes ↔ newline ∈ bytes := by
  induction bytes generalizing state with
  | nil => cases state <;> simp [scan]
  | cons b rest ih =>
    by_cases hb : b = newline
    · subst hb
      rw [scan_newline h]
      simp
    · obtain ⟨hsound, hnot⟩ := step_cases h hb
      rw [scan_cons, List.mem_append, ih hsound, List.mem_cons]
      simp [hnot, Ne.symm hb]

theorem newline_mem_encode_iff {text : String} : newline ∈ encode text ↔ '\n' ∈ text.toList := by
  rw [← newline_mem_scan_iff sound_none, encode, ← List.append_nil (List.flatMap _ _), scan_encode]
  simp [scan]

/-! ## Line by line -/

/-- The characters of a byte string with each damaged place replaced, given the sequence under
    way before it. -/
def decodeFrom (state : Option Sequence) (bytes : Bytes) : List Char :=
  (scan state bytes).map (·.getD replacement)

theorem newline_mem_replaced_iff {found : List (Option Char)} :
    '\n' ∈ found.map (·.getD replacement) ↔ some '\n' ∈ found := by
  rw [List.mem_map]
  constructor
  · rintro ⟨_ | c, hmem, heq⟩
    · exact absurd heq (by decide)
    · obtain rfl : c = '\n' := heq
      exact hmem
  · exact fun hmem => ⟨_, hmem, rfl⟩

theorem newline_not_mem_decodeFrom_nil (state : Option Sequence) : '\n' ∉ decodeFrom state [] := by
  rw [decodeFrom, newline_mem_replaced_iff]
  cases state <;> simp [scan]

theorem pieces_decodeFrom {state : Option Sequence} (h : Sound state) {bytes first : Bytes}
    {rest : List Bytes} (hpieces : pieces newline bytes = first :: rest) :
    pieces '\n' (decodeFrom state bytes) = decodeFrom state first :: rest.map decodeLossy := by
  induction bytes generalizing state first rest with
  | nil =>
    obtain ⟨rfl, rfl⟩ := List.cons.inj hpieces
    exact pieces_of_not_mem (newline_not_mem_decodeFrom_nil state)
  | cons b bytes ih =>
    obtain ⟨next, later, hnext⟩ := exists_pieces newline bytes
    by_cases hb : b = newline
    · -- the line under way ends here, and the next one starts afresh
      subst hb
      have hsplit : pieces newline (newline :: bytes) = [] :: next :: later := by
        rw [pieces, if_pos rfl, hnext]
      obtain ⟨rfl, rfl⟩ := List.cons.inj (hsplit.symm.trans hpieces)
      have hdecode : decodeFrom state (newline :: bytes) =
          decodeFrom state [] ++ '\n' :: decodeLossy bytes := by
        rw [decodeFrom, scan_newline h, List.map_append]
        rfl
      rw [hdecode, pieces_append_cons (newline_not_mem_decodeFrom_nil state)]
      exact congrArg _ (ih sound_none hnext)
    · obtain ⟨hsound, hnot⟩ := step_cases h hb
      have hsplit : pieces newline (b :: bytes) = (b :: next) :: later := by
        rw [pieces, if_neg hb, hnext]
        rfl
      obtain ⟨rfl, rfl⟩ := List.cons.inj (hsplit.symm.trans hpieces)
      have hdecode (more : Bytes) : decodeFrom state (b :: more) =
          (step state b).1.map (·.getD replacement) ++ decodeFrom (step state b).2 more := by
        rw [decodeFrom, scan_cons, List.map_append]
        rfl
      rw [hdecode, hdecode, pieces_append (mt newline_mem_replaced_iff.1 hnot) (ih hsound hnext)]

/-- Decoding commutes with splitting at newlines. -/
theorem pieces_decodeLossy (bytes : Bytes) :
    pieces '\n' (decodeLossy bytes) = (pieces newline bytes).map decodeLossy := by
  obtain ⟨first, rest, hpieces⟩ := exists_pieces newline bytes
  rw [hpieces, List.map_cons]
  exact pieces_decodeFrom sound_none hpieces

/-- A sequence under way shows, be it completed or not. -/
theorem scan_some_ne_nil (s : Sequence) (bytes : Bytes) : scan (some s) bytes ≠ [] := by
  induction bytes generalizing s with
  | nil => exact List.cons_ne_nil _ _
  | cons b rest ih =>
    rw [scan_cons]
    by_cases hwithin : s.low.toNat ≤ b.toNat ∧ b.toNat ≤ s.high.toNat
    · rw [step_of_within hwithin.1 hwithin.2]
      cases s.further with
      | zero => exact List.cons_ne_nil _ _
      | succ further => exact ih _
    · rw [step_of_not_within (by omega)]
      exact List.cons_ne_nil _ _

theorem decodeLossy_eq_nil_iff {bytes : Bytes} : decodeLossy bytes = [] ↔ bytes = [] := by
  refine ⟨fun h => ?_, fun h => h ▸ rfl⟩
  cases bytes with
  | nil => rfl
  | cons b rest =>
    rw [decodeLossy, List.map_eq_nil_iff, scan_cons, step] at h
    obtain ⟨-, hopening⟩ | hopening | ⟨s, hopening, -⟩ := opening_cases b
    · rw [hopening] at h
      cases h
    · rw [hopening] at h
      cases h
    · rw [hopening] at h
      exact absurd h (scan_some_ne_nil s rest)

end Utf8

end UniversalMachine.Text
