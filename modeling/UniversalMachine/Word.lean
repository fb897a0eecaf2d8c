/-
  UniversalMachine.Word

  The 32-bit word the machine computes with, and its four-byte form.

  Programs, saved states and array contents all leave the machine as bytes, and
  all of them use the same layout: each word is four bytes, most significant
  byte first. `Word.toBytes` and `Word.ofBytes` convert one word,
  `Word.listToBytes` and `Word.listOfBytes` convert a run of them.
-/

namespace UniversalMachine

/-- A machine word. Arithmetic on words wraps modulo `2 ^ 32`. -/
abbrev Word := UInt32

/-- Contents of a file, an image or a saved state. -/
abbrev Bytes := List UInt8

namespace Word

/-! ## One word -/

/-- The four bytes of a word, most significant first. -/
def toBytes (w : Word) : Bytes :=
  [.ofNat (w.toNat / 0x1000000), .ofNat (w.toNat / 0x10000), .ofNat (w.toNat / 0x100),
    .ofNat w.toNat]

/-- The word with the given bytes, most significant first. -/
def ofBytes (b₃ b₂ b₁ b₀ : UInt8) : Word :=
  .ofNat (b₃.toNat * 0x1000000 + b₂.toNat * 0x10000 + b₁.toNat * 0x100 + b₀.toNat)

@[simp]
theorem length_toBytes (w : Word) : (toBytes w).length = 4 := rfl

theorem toNat_ofBytes (b₃ b₂ b₁ b₀ : UInt8) :
    (ofBytes b₃ b₂ b₁ b₀).toNat =
      b₃.toNat * 0x1000000 + b₂.toNat * 0x10000 + b₁.toNat * 0x100 + b₀.toNat := by
  have h₃ := b₃.toNat_lt
  have h₂ := b₂.toNat_lt
  have h₁ := b₁.toNat_lt
  have h₀ := b₀.toNat_lt
  simp only [ofBytes, UInt32.toNat_ofNat']
  omega

/-- Writing the bytes just read gives them back. -/
theorem toBytes_ofBytes (b₃ b₂ b₁ b₀ : UInt8) :
    toBytes (ofBytes b₃ b₂ b₁ b₀) = [b₃, b₂, b₁, b₀] := by
  have h₃ := b₃.toNat_lt
  have h₂ := b₂.toNat_lt
  have h₁ := b₁.toNat_lt
  have h₀ := b₀.toNat_lt
  simp only [toBytes, toNat_ofBytes, List.cons.injEq, and_true]
  refine ⟨?_, ?_, ?_, ?_⟩ <;> apply UInt8.toNat_inj.1 <;> rw [UInt8.toNat_ofNat'] <;> omega

/-- Reading the bytes just written gives the word back. -/
theorem ofBytes_toBytes (w : Word) :
    ofBytes (.ofNat (w.toNat / 0x1000000)) (.ofNat (w.toNat / 0x10000))
      (.ofNat (w.toNat / 0x100)) (.ofNat w.toNat) = w := by
  have h := w.toNat_lt
  apply UInt32.toNat_inj.1
  simp only [toNat_ofBytes, UInt8.toNat_ofNat']
  omega

/-! ## Runs of words -/

/-- The bytes of a run of words, one word after the other. -/
def listToBytes (ws : List Word) : Bytes :=
  ws.flatMap toBytes

/-- The words of a byte string; up to three bytes left over at its end are dropped. -/
def listOfBytes : Bytes → List Word
  | b₃ :: b₂ :: b₁ :: b₀ :: rest => ofBytes b₃ b₂ b₁ b₀ :: listOfBytes rest
  | _ => []

@[simp]
theorem length_listToBytes (ws : List Word) : (listToBytes ws).length = 4 * ws.length := by
  induction ws with
  | nil => rfl
  | cons w ws ih =>
    simp only [listToBytes, List.flatMap_cons, List.length_append, List.length_cons,
      length_toBytes] at ih ⊢
    omega

/-- Words survive being written and read. -/
theorem listOfBytes_listToBytes (ws : List Word) : listOfBytes (listToBytes ws) = ws := by
  induction ws with
  | nil => rfl
  | cons w ws ih =>
    change ofBytes _ _ _ _ :: listOfBytes (listToBytes ws) = w :: ws
    rw [ih, ofBytes_toBytes]

/-- Bytes survive being read and written when they are a whole number of words. -/
theorem listToBytes_listOfBytes (b : Bytes) (h : b.length % 4 = 0) :
    listToBytes (listOfBytes b) = b := by
  fun_induction listOfBytes b with
  | case1 b₃ b₂ b₁ b₀ rest ih =>
    simp only [List.length_cons] at h
    have step := ih (by omega)
    simp only [listToBytes, List.flatMap_cons, toBytes_ofBytes] at step ⊢
    simp [step]
  | case2 b hb =>
    match b, hb with
    | [], _ => rfl
    | [_], _ => simp at h
    | [_, _], _ => simp at h
    | [_, _, _], _ => simp at h
    | _ :: _ :: _ :: _ :: _, hb => exact absurd rfl (hb _ _ _ _ _)

end Word

end UniversalMachine
