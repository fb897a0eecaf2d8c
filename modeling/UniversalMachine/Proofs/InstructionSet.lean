/-
  UniversalMachine.Proofs.InstructionSet

  The instruction set as a transition relation over plain mathematics.

  Here a word is a natural number, the arrays are a partial map from handles to
  lists, and arithmetic says where it wraps. Each rule reads its operands from the
  state before the instruction; nothing is said about how a machine finds a handle
  or keeps its accounts. The rules come in three groups:

    * `State.Completes`: the instruction completes and involves no device,
    * `State.Faults`: the instruction cannot be carried out,
    * `Transition`: these two, halting, and the instructions that print or read.

  As long as some handle is free there is a rule for every state
  (`Transition.total`), and no rule changes more than its instruction names
  (`Transition.confined`). That the machine follows these rules and no others is
  shown in UniversalMachine.Proofs.InstructionEffect.
-/

import Mathlib.Algebra.BigOperators.Group.Finset.Basic
import Mathlib.Data.Nat.Find
import Mathlib.Logic.Function.Basic
import UniversalMachine.Execution

namespace UniversalMachine

namespace Reference

/-! ## States -/

/-- What the instructions work on. Words and handles are numbers below `2 ^ 32`. -/
@[ext]
structure State where
  ip : ℕ
  reg : Selector → ℕ
  /-- The words of each live array; array 0 is the program. -/
  arrays : ℕ → Option (List ℕ)
  /-- Where the search for a free handle starts. -/
  counter : ℕ
  /-- The most words that may be live at once, if bounded. -/
  capacity : Option ℕ
  /-- Instructions completed. -/
  cycles : ℕ

namespace State

def program (s : State) : List ℕ :=
  (s.arrays 0).getD []

/-- The word at the pointer, if the program reaches that far. -/
def word? (s : State) : Option ℕ :=
  s.program[s.ip]?

/-- The number of words in all live arrays. -/
def words (s : State) : ℕ :=
  ∑ handle ∈ Finset.range (2 ^ 32), ((s.arrays handle).getD []).length

/-- The word at the pointer has operation code `op` and names the registers `a`, `b`, `c`. -/
def At (s : State) (op : ℕ) (a b c : Selector) : Prop :=
  ∃ w, s.word? = some w ∧ w / 2 ^ 28 = op ∧ (a : ℕ) = w / 2 ^ 6 % 8 ∧ (b : ℕ) = w / 2 ^ 3 % 8 ∧
    (c : ℕ) = w % 8

/-- So many more words stay within the capacity. -/
def Fits (s : State) (inUse requested : ℕ) : Prop :=
  ∀ limit, s.capacity = some limit → inUse + requested ≤ limit

def Free (s : State) (handle : ℕ) : Prop :=
  handle ≠ 0 ∧ s.arrays handle = none

/-- The next handle to issue: the first free one from the counter on, the handles following one
    another in a circle. -/
def Issues (s : State) (handle : ℕ) : Prop :=
  ∃ passed, handle = (s.counter + passed) % 2 ^ 32 ∧ s.Free handle ∧
    ∀ j < passed, ¬s.Free ((s.counter + j) % 2 ^ 32)

/-! Changes -/

def goto (s : State) (ip : ℕ) : State :=
  { s with ip, cycles := s.cycles + 1 }

def next (s : State) : State :=
  s.goto ((s.ip + 1) % 2 ^ 32)

def assign (s : State) (r : Selector) (value : ℕ) : State :=
  { s with reg := Function.update s.reg r value }

def bind (s : State) (handle : ℕ) (array : List ℕ) : State :=
  { s with arrays := Function.update s.arrays handle (some array) }

def unbind (s : State) (handle : ℕ) : State :=
  { s with arrays := Function.update s.arrays handle none }

def setCounter (s : State) (counter : ℕ) : State :=
  { s with counter }

/-! ## Rules -/

/-- The instruction at the pointer completes and involves no device. -/
inductive Completes (s : State) : State → Prop
  -- 0, conditional move: A := B unless C is zero
  | move {a b c : Selector} (h : s.At 0 a b c) (hc : s.reg c ≠ 0) :
      Completes s (s.assign a (s.reg b)).next
  | keep {a b c : Selector} (h : s.At 0 a b c) (hc : s.reg c = 0) : Completes s s.next
  -- 1, array index: A := the word of array B at C
  | index {a b c : Selector} {array : List ℕ} {value : ℕ} (h : s.At 1 a b c)
      (hb : s.arrays (s.reg b) = some array) (hc : array[s.reg c]? = some value) :
      Completes s (s.assign a value).next
  -- 2, array amendment: the word of array A at B := C
  | amend {a b c : Selector} {array : List ℕ} (h : s.At 2 a b c)
      (ha : s.arrays (s.reg a) = some array) (hb : s.reg b < array.length) :
      Completes s (s.bind (s.reg a) (array.set (s.reg b) (s.reg c))).next
  -- 3 to 6, arithmetic: A := B + C, B * C, B / C, not (B and C)
  | add {a b c : Selector} (h : s.At 3 a b c) :
      Completes s (s.assign a ((s.reg b + s.reg c) % 2 ^ 32)).next
  | multiply {a b c : Selector} (h : s.At 4 a b c) :
      Completes s (s.assign a (s.reg b * s.reg c % 2 ^ 32)).next
  | divide {a b c : Selector} (h : s.At 5 a b c) (hc : s.reg c ≠ 0) :
      Completes s (s.assign a (s.reg b / s.reg c)).next
  | notAnd {a b c : Selector} (h : s.At 6 a b c) :
      Completes s (s.assign a (2 ^ 32 - 1 - (s.reg b &&& s.reg c))).next
  -- 8, allocation: B := the handle of a new array of C zero words
  | allocate {a b c : Selector} {handle : ℕ} (h : s.At 8 a b c) (hc : s.Fits s.words (s.reg c))
      (hhandle : s.Issues handle) :
      Completes s (((s.bind handle (List.replicate (s.reg c) 0)).setCounter
        ((handle + 1) % 2 ^ 32)).assign b handle).next
  -- 9, abandonment: array C is no longer live
  | abandon {a b c : Selector} {array : List ℕ} (h : s.At 9 a b c) (hc : s.reg c ≠ 0)
      (hlive : s.arrays (s.reg c) = some array) : Completes s (s.unbind (s.reg c)).next
  -- 12, load program: a copy of array B becomes the program, which goes on at C
  | jump {a b c : Selector} (h : s.At 12 a b c) (hb : s.reg b = 0) :
      Completes s (s.goto (s.reg c))
  | load {a b c : Selector} {array : List ℕ} (h : s.At 12 a b c) (hb : s.reg b ≠ 0)
      (hlive : s.arrays (s.reg b) = some array)
      (hfits : s.Fits (s.words - s.program.length) array.length) :
      Completes s ((s.bind 0 array).goto (s.reg c))
  -- 13, orthography: the register in bits 25 to 27 := bits 0 to 24
  | immediate {w : ℕ} {a : Selector} (hw : s.word? = some w) (hop : w / 2 ^ 28 = 13)
      (ha : (a : ℕ) = w / 2 ^ 25 % 8) : Completes s (s.assign a (w % 2 ^ 25)).next

/-- The instruction at the pointer cannot be carried out. -/
inductive Faults (s : State) : FaultCause → Prop
  | pastTheEnd (h : s.word? = none) : Faults s (.counterOutOfBounds s.program.length)
  | invalid {w : ℕ} (hw : s.word? = some w) (hop : 14 ≤ w / 2 ^ 28) :
      Faults s (.invalidInstruction (Fin.ofNat 16 (w / 2 ^ 28)) (.ofNat w))
  | indexInactive {a b c : Selector} (h : s.At 1 a b c) (hb : s.arrays (s.reg b) = none) :
      Faults s (.inactiveHandle (.ofNat (s.reg b)))
  | indexBeyond {a b c : Selector} {array : List ℕ} (h : s.At 1 a b c)
      (hb : s.arrays (s.reg b) = some array) (hc : array.length ≤ s.reg c) :
      Faults s (.outOfBounds (.ofNat (s.reg b)) (.ofNat (s.reg c)) array.length)
  | amendInactive {a b c : Selector} (h : s.At 2 a b c) (ha : s.arrays (s.reg a) = none) :
      Faults s (.inactiveHandle (.ofNat (s.reg a)))
  | amendBeyond {a b c : Selector} {array : List ℕ} (h : s.At 2 a b c)
      (ha : s.arrays (s.reg a) = some array) (hb : array.length ≤ s.reg b) :
      Faults s (.outOfBounds (.ofNat (s.reg a)) (.ofNat (s.reg b)) array.length)
  | divideByZero {a b c : Selector} (h : s.At 5 a b c) (hc : s.reg c = 0) :
      Faults s .divisionByZero
  | allocateBeyond {a b c : Selector} {limit : ℕ} (h : s.At 8 a b c)
      (hlimit : s.capacity = some limit) (hover : limit < s.words + s.reg c) :
      Faults s (.outOfMemory (s.reg c) limit)
  | abandonProgram {a b c : Selector} (h : s.At 9 a b c) (hc : s.reg c = 0) :
      Faults s .abandonProgram
  | abandonInactive {a b c : Selector} (h : s.At 9 a b c) (hc : s.reg c ≠ 0)
      (hlive : s.arrays (s.reg c) = none) : Faults s (.inactiveHandle (.ofNat (s.reg c)))
  | outputOutOfRange {a b c : Selector} (h : s.At 10 a b c) (hc : 256 ≤ s.reg c) :
      Faults s (.outputOutOfRange (.ofNat (s.reg c)))
  | loadInactive {a b c : Selector} (h : s.At 12 a b c) (hb : s.reg b ≠ 0)
      (hlive : s.arrays (s.reg b) = none) : Faults s (.inactiveHandle (.ofNat (s.reg b)))
  | loadBeyond {a b c : Selector} {array : List ℕ} {limit : ℕ} (h : s.At 12 a b c)
      (hb : s.reg b ≠ 0) (hlive : s.arrays (s.reg b) = some array)
      (hlimit : s.capacity = some limit)
      (hover : limit < s.words - s.program.length + array.length) :
      Faults s (.outOfMemory array.length limit)

end State

/-- A state and the devices. -/
structure Setting (ι σ : Type) where
  state : State
  input : ι
  output : σ

variable {ι σ : Type} [InputSource ι] [OutputSink σ]

/-- One instruction: what it returns, and the state and the devices after it. -/
inductive Transition : Setting ι σ → Option Outcome → Setting ι σ → Prop
  | complete {s s' : State} {i : ι} {o : σ} (h : s.Completes s') :
      Transition ⟨s, i, o⟩ none ⟨s', i, o⟩
  | fault {s : State} {i : ι} {o : σ} {cause : FaultCause} (h : s.Faults cause) :
      Transition ⟨s, i, o⟩ (some (.fault ⟨cause, .ofNat s.ip⟩)) ⟨s, i, o⟩
  -- 7, halt
  | halt {s : State} {i : ι} {o : σ} {a b c : Selector} (h : s.At 7 a b c) :
      Transition ⟨s, i, o⟩ (some .halted) ⟨s, i, o⟩
  -- 10, output: C is printed, and the sink may ask to stop
  | print {s : State} {i : ι} {o o' : σ} {a b c : Selector} (h : s.At 10 a b c)
      (hc : s.reg c < 256) (ho : OutputSink.emit o (.ofNat (s.reg c)) = (true, o')) :
      Transition ⟨s, i, o⟩ none ⟨s.next, i, o'⟩
  | stop {s : State} {i : ι} {o o' : σ} {a b c : Selector} (h : s.At 10 a b c)
      (hc : s.reg c < 256) (ho : OutputSink.emit o (.ofNat (s.reg c)) = (false, o')) :
      Transition ⟨s, i, o⟩ (some .stopRequested) ⟨s.next, i, o'⟩
  -- 11, input: C := the next word, if there is one
  | read {s : State} {i i' : ι} {o : σ} {a b c : Selector} {w : Word} (h : s.At 11 a b c)
      (hi : InputSource.next i = (some w, i')) :
      Transition ⟨s, i, o⟩ none ⟨(s.assign c w.toNat).next, i', o⟩
  | wait {s : State} {i i' : ι} {o : σ} {a b c : Selector} (h : s.At 11 a b c)
      (hi : InputSource.next i = (none, i')) :
      Transition ⟨s, i, o⟩ (some .inputNeeded) ⟨s, i', o⟩

/-! ## A rule for every state -/

namespace State

variable {s : State} {op op' : ℕ} {a b c a' b' c' : Selector}

theorem exists_at {w : ℕ} (h : s.word? = some w) : ∃ a b c, s.At (w / 2 ^ 28) a b c :=
  ⟨⟨w / 2 ^ 6 % 8, by omega⟩, ⟨w / 2 ^ 3 % 8, by omega⟩, ⟨w % 8, by omega⟩, w, h, rfl, rfl, rfl,
    rfl⟩

theorem exists_issues (h : ∃ handle < 2 ^ 32, s.Free handle) : ∃ handle, s.Issues handle := by
  obtain ⟨handle, hlt, hfree⟩ := h
  -- going on from the counter, the circle comes to every handle
  have hsome : ∃ n, s.Free ((s.counter + n) % 2 ^ 32) := by
    refine ⟨handle + (2 ^ 32 - s.counter % 2 ^ 32), ?_⟩
    have hreach : (s.counter + (handle + (2 ^ 32 - s.counter % 2 ^ 32))) % 2 ^ 32 = handle := by
      omega
    rwa [hreach]
  classical
  exact ⟨_, Nat.find hsome, rfl, Nat.find_spec hsome, fun j hj => Nat.find_min hsome hj⟩

theorem fits_or_exceeds (s : State) (inUse requested : ℕ) :
    s.Fits inUse requested ∨ ∃ limit, s.capacity = some limit ∧ limit < inUse + requested := by
  unfold Fits
  cases s.capacity with
  | none => exact .inl nofun
  | some limit =>
    by_cases h : inUse + requested ≤ limit
    · exact .inl fun _ hlimit => Option.some.inj hlimit ▸ h
    · exact .inr ⟨limit, rfl, by omega⟩

/-- An instruction that involves no device completes or faults. -/
theorem completes_or_faults (hfree : ∃ handle < 2 ^ 32, s.Free handle) :
    (op : ℕ) → op < 13 → op ≠ 7 → op ≠ 10 → op ≠ 11 → s.At op a b c →
      (∃ s', s.Completes s') ∨ ∃ cause, s.Faults cause
  | 0, _, _, _, _, h => by
    by_cases hc : s.reg c = 0
    · exact .inl ⟨_, .keep h hc⟩
    · exact .inl ⟨_, .move h hc⟩
  | 1, _, _, _, _, h => by
    cases hb : s.arrays (s.reg b) with
    | none => exact .inr ⟨_, .indexInactive h hb⟩
    | some array =>
      cases hc : array[s.reg c]? with
      | none => exact .inr ⟨_, .indexBeyond h hb (List.getElem?_eq_none_iff.1 hc)⟩
      | some value => exact .inl ⟨_, .index h hb hc⟩
  | 2, _, _, _, _, h => by
    cases ha : s.arrays (s.reg a) with
    | none => exact .inr ⟨_, .amendInactive h ha⟩
    | some array =>
      rcases Nat.lt_or_ge (s.reg b) array.length with hb | hb
      · exact .inl ⟨_, .amend h ha hb⟩
      · exact .inr ⟨_, .amendBeyond h ha hb⟩
  | 3, _, _, _, _, h => .inl ⟨_, .add h⟩
  | 4, _, _, _, _, h => .inl ⟨_, .multiply h⟩
  | 5, _, _, _, _, h => by
    by_cases hc : s.reg c = 0
    · exact .inr ⟨_, .divideByZero h hc⟩
    · exact .inl ⟨_, .divide h hc⟩
  | 6, _, _, _, _, h => .inl ⟨_, .notAnd h⟩
  | 8, _, _, _, _, h => by
    obtain ⟨handle, hhandle⟩ := exists_issues hfree
    rcases s.fits_or_exceeds s.words (s.reg c) with hfits | ⟨limit, hlimit, hover⟩
    · exact .inl ⟨_, .allocate h hfits hhandle⟩
    · exact .inr ⟨_, .allocateBeyond h hlimit hover⟩
  | 9, _, _, _, _, h => by
    by_cases hc : s.reg c = 0
    · exact .inr ⟨_, .abandonProgram h hc⟩
    · cases hlive : s.arrays (s.reg c) with
      | none => exact .inr ⟨_, .abandonInactive h hc hlive⟩
      | some array => exact .inl ⟨_, .abandon h hc hlive⟩
  | 12, _, _, _, _, h => by
    by_cases hb : s.reg b = 0
    · exact .inl ⟨_, .jump h hb⟩
    · cases hlive : s.arrays (s.reg b) with
      | none => exact .inr ⟨_, .loadInactive h hb hlive⟩
      | some array =>
        rcases s.fits_or_exceeds (s.words - s.program.length) array.length with
          hfits | ⟨limit, hlimit, hover⟩
        · exact .inl ⟨_, .load h hb hlive hfits⟩
        · exact .inr ⟨_, .loadBeyond h hb hlive hlimit hover⟩

end State

/-- While some handle is free, the instruction at the pointer has a transition. -/
theorem Transition.total (x : Setting ι σ) (hfree : ∃ handle < 2 ^ 32, x.state.Free handle) :
    ∃ outcome x', Transition x outcome x' := by
  obtain ⟨s, i, o⟩ := x
  cases hw : s.word? with
  | none => exact ⟨_, _, .fault (.pastTheEnd hw)⟩
  | some w =>
    obtain ⟨a, b, c, h⟩ := State.exists_at hw
    -- the codes with a rule of their own first, then all the others
    by_cases hinvalid : 14 ≤ w / 2 ^ 28
    · exact ⟨_, _, .fault (.invalid hw hinvalid)⟩
    by_cases himmediate : w / 2 ^ 28 = 13
    · have hlt : w / 2 ^ 25 % 8 < 8 := by omega
      exact ⟨_, _, .complete (@State.Completes.immediate s w ⟨_, hlt⟩ hw himmediate rfl)⟩
    by_cases hhalt : w / 2 ^ 28 = 7
    · rw [hhalt] at h
      exact ⟨_, _, .halt h⟩
    by_cases hprint : w / 2 ^ 28 = 10
    · rw [hprint] at h
      rcases Nat.lt_or_ge (s.reg c) 256 with hc | hc
      · rcases ho : OutputSink.emit o (.ofNat (s.reg c)) with ⟨_ | _, o'⟩
        · exact ⟨_, _, .stop h hc ho⟩
        · exact ⟨_, _, .print h hc ho⟩
      · exact ⟨_, _, .fault (.outputOutOfRange h hc)⟩
    by_cases hread : w / 2 ^ 28 = 11
    · rw [hread] at h
      rcases hi : InputSource.next i with ⟨_ | word, i'⟩
      · exact ⟨_, _, .wait h hi⟩
      · exact ⟨_, _, .read h hi⟩
    rcases State.completes_or_faults hfree _ (by omega) hhalt hprint hread h with
      ⟨s', hcompletes⟩ | ⟨cause, hfaults⟩
    · exact ⟨_, _, .complete hcompletes⟩
    · exact ⟨_, _, .fault hfaults⟩

/-! ## What an instruction leaves alone -/

/-- At most one word, one binding or the program changes. -/
inductive ArraysChange (arrays : ℕ → Option (List ℕ)) : (ℕ → Option (List ℕ)) → Prop
  | same : ArraysChange arrays arrays
  | word {handle offset value : ℕ} {array : List ℕ} (hlive : arrays handle = some array)
      (hoffset : offset < array.length) :
      ArraysChange arrays (Function.update arrays handle (some (array.set offset value)))
  | bound {handle size : ℕ} (hzero : handle ≠ 0) (hfree : arrays handle = none) :
      ArraysChange arrays (Function.update arrays handle (some (List.replicate size 0)))
  | unbound {handle : ℕ} {array : List ℕ} (hzero : handle ≠ 0)
      (hlive : arrays handle = some array) :
      ArraysChange arrays (Function.update arrays handle none)
  | program {handle : ℕ} {array : List ℕ} (hlive : arrays handle = some array) :
      ArraysChange arrays (Function.update arrays 0 (some array))

/-- The outcomes of an instruction that has been carried out. -/
def Completed (outcome : Option Outcome) : Prop :=
  outcome = none ∨ outcome = some .stopRequested

/-- The bounds that every instruction keeps to. -/
structure Confined (s : State) (outcome : Option Outcome) (s' : State) : Prop where
  unfinished : ¬Completed outcome → s' = s
  cycles : Completed outcome → s'.cycles = s.cycles + 1
  jump : Completed outcome → ∀ a b c, s.At 12 a b c → s'.ip = s.reg c
  next : Completed outcome → (∀ a b c, ¬s.At 12 a b c) → s'.ip = (s.ip + 1) % 2 ^ 32
  /-- At most one register changes. -/
  registers : ∃ r, ∀ r', r' ≠ r → s'.reg r' = s.reg r'
  arrays : ArraysChange s.arrays s'.arrays
  capacity : s'.capacity = s.capacity

namespace State

variable {s : State} {op op' : ℕ} {a b c a' b' c' : Selector}

theorem At.op_unique (h : s.At op a b c) (h' : s.At op' a' b' c') : op = op' := by
  obtain ⟨w, hw, rfl, -⟩ := h
  obtain ⟨w', hw', rfl, -⟩ := h'
  obtain rfl := Option.some.inj (hw.symm.trans hw')
  rfl

theorem At.operandC_unique (h : s.At op a b c) (h' : s.At op' a' b' c') : c = c' := by
  obtain ⟨w, hw, -, -, -, hc⟩ := h
  obtain ⟨w', hw', -, -, -, hc'⟩ := h'
  obtain rfl := Option.some.inj (hw.symm.trans hw')
  exact Fin.ext (hc.trans hc'.symm)

theorem At.not_load (h : s.At op a b c) (hne : op ≠ 12) : ∀ a' b' c', ¬s.At 12 a' b' c' :=
  fun _ _ _ h' => hne (h.op_unique h')

theorem reg_assign_of_ne (s : State) (value : ℕ) {r r' : Selector} (h : r' ≠ r) :
    (s.assign r value).reg r' = s.reg r' :=
  Function.update_of_ne h _ _

end State

namespace Confined

variable {s t : State} {outcome : Option Outcome}

theorem refl (s : State) (h : ¬Completed outcome) : Confined s outcome s where
  unfinished := fun _ => rfl
  cycles := fun hdone => absurd hdone h
  jump := fun hdone => absurd hdone h
  next := fun hdone => absurd hdone h
  registers := ⟨0, fun _ _ => rfl⟩
  arrays := .same
  capacity := rfl

/-- An instruction other than a load that has changed the registers and arrays moves on. -/
theorem advance (hdone : Completed outcome) (hload : ∀ a b c, ¬s.At 12 a b c)
    (hip : t.ip = s.ip) (hcycles : t.cycles = s.cycles) (hcapacity : t.capacity = s.capacity)
    (hreg : ∃ r, ∀ r', r' ≠ r → t.reg r' = s.reg r') (harrays : ArraysChange s.arrays t.arrays) :
    Confined s outcome t.next where
  unfinished := fun h => absurd hdone h
  cycles := fun _ => congrArg (· + 1) hcycles
  jump := fun _ a b c h => absurd h (hload a b c)
  next := fun _ _ => congrArg (fun ip => (ip + 1) % 2 ^ 32) hip
  registers := hreg
  arrays := harrays
  capacity := hcapacity

theorem assign (hdone : Completed outcome) (hload : ∀ a b c, ¬s.At 12 a b c) (r : Selector)
    (value : ℕ) : Confined s outcome (s.assign r value).next :=
  advance hdone hload rfl rfl rfl ⟨r, fun _ => s.reg_assign_of_ne value⟩ .same

theorem load {a b c : Selector} (h : s.At 12 a b c) (hcycles : t.cycles = s.cycles)
    (hcapacity : t.capacity = s.capacity) (hreg : t.reg = s.reg)
    (harrays : ArraysChange s.arrays t.arrays) : Confined s none (t.goto (s.reg c)) where
  unfinished := fun hnot => absurd (.inl rfl) hnot
  cycles := fun _ => congrArg (· + 1) hcycles
  jump := fun _ _ _ _ h' => congrArg s.reg (h.operandC_unique h')
  next := fun _ hload => absurd h (hload a b c)
  registers := ⟨0, fun r _ => congrFun hreg r⟩
  arrays := harrays
  capacity := hcapacity

end Confined

theorem State.Completes.confined {s s' : State} (h : s.Completes s') : Confined s none s' := by
  have hdone : Completed none := .inl rfl
  cases h with
  | move h => exact .assign hdone (h.not_load (by decide)) _ _
  | keep h => exact .advance hdone (h.not_load (by decide)) rfl rfl rfl ⟨0, fun _ _ => rfl⟩ .same
  | index h => exact .assign hdone (h.not_load (by decide)) _ _
  | amend h ha hb =>
    exact .advance hdone (h.not_load (by decide)) rfl rfl rfl ⟨0, fun _ _ => rfl⟩ (.word ha hb)
  | add h => exact .assign hdone (h.not_load (by decide)) _ _
  | multiply h => exact .assign hdone (h.not_load (by decide)) _ _
  | divide h => exact .assign hdone (h.not_load (by decide)) _ _
  | notAnd h => exact .assign hdone (h.not_load (by decide)) _ _
  | @allocate a b c handle h _ hhandle =>
    obtain ⟨_, _, ⟨hzero, hfree⟩, _⟩ := hhandle
    exact .advance hdone (h.not_load (by decide)) rfl rfl rfl
      ⟨b, fun _ => State.reg_assign_of_ne _ handle⟩ (.bound hzero hfree)
  | abandon h hc hlive =>
    exact .advance hdone (h.not_load (by decide)) rfl rfl rfl ⟨0, fun _ _ => rfl⟩
      (.unbound hc hlive)
  | jump h => exact .load h rfl rfl rfl .same
  | load h _ hlive => exact .load h rfl rfl rfl (.program hlive)
  | immediate hw hop =>
    obtain ⟨a, b, c, h⟩ := State.exists_at hw
    exact .assign hdone (h.not_load (by omega)) _ _

theorem Transition.confined {x x' : Setting ι σ} {outcome : Option Outcome}
    (h : Transition x outcome x') : Confined x.state outcome x'.state := by
  cases h with
  | complete h => exact h.confined
  | fault => exact .refl _ (by simp [Completed])
  | halt => exact .refl _ (by simp [Completed])
  | print h =>
    exact .advance (.inl rfl) (h.not_load (by decide)) rfl rfl rfl ⟨0, fun _ _ => rfl⟩ .same
  | stop h =>
    exact .advance (.inr rfl) (h.not_load (by decide)) rfl rfl rfl ⟨0, fun _ _ => rfl⟩ .same
  | read h => exact .assign (.inl rfl) (h.not_load (by decide)) _ _
  | wait => exact .refl _ (by simp [Completed])

end Reference

end UniversalMachine
