/-
  UniversalMachine.Proofs.ArgumentOrder

  Command lines as blocks that may stand in any order.

  An argument is read by what stands before it, so the parts of a command line that can
  be moved about are not arguments but blocks: `--plain`, `--output` with the argument
  after it, and a positional argument. `Options.sort` reads blocks one after the other
  (`sort_append`), and every command line is blocks up to its end or up to the first
  flag that nothing can be made of (`divides`). What blocks ask for depends on the
  positional arguments in their order, on the last file named and on whether `--plain`
  is among them, and on nothing else (`collect_eq`), so their order matters only as far
  as one of these shows it (`Rearranged.parse_eq`).
-/

import UniversalMachine.Console.Options

namespace UniversalMachine.Options

/-! ## Blocks -/

/-- A part of a command line that is read as a whole. -/
inductive Block where
  | plain
  | output (path : String)
  | positional (argument : String)
  deriving DecidableEq, Repr

namespace Block

/-- The arguments of a block. -/
def render : Block → List String
  | .plain => ["--plain"]
  | .output path => ["--output", path]
  | .positional argument => [argument]

/-- A positional argument does not start with two dashes; a file name may. -/
def Proper : Block → Prop
  | .plain => True
  | .output _ => True
  | .positional argument => ¬['-', '-'] <+: argument.toList

/-- The file that a block names. -/
def output? : Block → Option String
  | .output path => some path
  | _ => none

/-- The positional argument that a block is. -/
def positional? : Block → Option String
  | .positional argument => some argument
  | _ => none

end Block

/-- The arguments of some blocks. -/
def render (blocks : List Block) : List String :=
  blocks.flatMap Block.render

/-- The files that some blocks name. -/
def outputs (blocks : List Block) : List String :=
  blocks.filterMap Block.output?

/-- The positional arguments among some blocks. -/
def positionals (blocks : List Block) : List String :=
  blocks.filterMap Block.positional?

/-- Read from left to right, the arguments are these blocks. -/
structure Scanned (arguments : List String) (blocks : List Block) : Prop where
  proper : ∀ block ∈ blocks, block.Proper
  arguments_eq : arguments = render blocks

/-- Nothing can be made of the first of these arguments. -/
inductive Offends : List String → OptionsError → Prop
  | noFile : Offends ["--output"] .outputNeedsFile
  | unknown {flag : String} (rest : List String) (hflag : ['-', '-'] <+: flag.toList)
      (hplain : flag ≠ "--plain") (houtput : flag ≠ "--output") :
      Offends (flag :: rest) (.unknownOption flag)

/-- There is no positional argument, or there are more than two. -/
inductive Miscounts : List String → OptionsError → Prop
  | none : Miscounts [] .noProgram
  | tooMany (program savedState extra : String) (rest : List String) :
      Miscounts (program :: savedState :: extra :: rest) (.unexpectedArgument extra)

theorem Miscounts.length_ne {arguments : List String} {e : OptionsError}
    (h : Miscounts arguments e) : arguments.length ≠ 1 ∧ arguments.length ≠ 2 := by
  cases h <;> simp

/-- What blocks ask for. -/
structure Asks (blocks : List Block) (options : Options) : Prop where
  positionals_eq : positionals blocks = options.program :: options.savedState.toList
  output_eq : options.output = (outputs blocks).getLast?
  plain_iff : options.plain = true ↔ .plain ∈ blocks

/-- The same blocks, with the positional arguments in the same order and the files in the
    same order. -/
structure Rearranged (blocks blocks' : List Block) : Prop where
  perm : blocks.Perm blocks'
  positionals_eq : positionals blocks' = positionals blocks
  outputs_eq : outputs blocks' = outputs blocks

/-- Blocks that ask for these options. -/
def blocks (options : Options) : List Block :=
  .positional options.program :: options.savedState.toList.map .positional ++
    options.output.toList.map .output ++ if options.plain then [.plain] else []

/-! ## Reading blocks -/

theorem isFlag_iff {argument : String} : isFlag argument = true ↔ ['-', '-'] <+: argument.toList :=
  List.isPrefixOf_iff_prefix

/-- The arguments sorted so far with one more block. -/
def Sorted.add (sorted : Sorted) : Block → Sorted
  | .plain => { sorted with plain := true }
  | .output path => { sorted with output := some path }
  | .positional argument => { sorted with positional := sorted.positional ++ [argument] }

/-- The arguments sorted so far with more blocks. -/
def Sorted.collect (sorted : Sorted) (blocks : List Block) : Sorted :=
  blocks.foldl Sorted.add sorted

/-- The scan reads one argument, or two. -/
theorem sort_cons (sorted : Sorted) (argument : String) (rest : List String) :
    sort sorted (argument :: rest) =
      if argument = "--plain" then sort { sorted with plain := true } rest
      else if argument = "--output" then
        match rest with
        | [] => .error .outputNeedsFile
        | path :: rest => sort { sorted with output := some path } rest
      else if isFlag argument then .error (.unknownOption argument)
      else sort { sorted with positional := sorted.positional ++ [argument] } rest :=
  sort.eq_def sorted (argument :: rest)

theorem sort_block {block : Block} (h : block.Proper) (sorted : Sorted) (rest : List String) :
    sort sorted (block.render ++ rest) = sort (sorted.add block) rest := by
  cases block with
  | plain =>
    show sort sorted ("--plain" :: rest) = _
    rw [sort_cons, if_pos rfl]
    rfl
  | output path =>
    show sort sorted ("--output" :: path :: rest) = _
    rw [sort_cons, if_neg (by decide), if_pos rfl]
    rfl
  | positional argument =>
    have hflag : ¬isFlag argument = true := mt isFlag_iff.1 h
    -- the two flags that mean something start with two dashes as well
    have hplain : argument ≠ "--plain" := by
      rintro rfl
      exact hflag rfl
    have houtput : argument ≠ "--output" := by
      rintro rfl
      exact hflag rfl
    show sort sorted (argument :: rest) = _
    rw [sort_cons, if_neg hplain, if_neg houtput, if_neg hflag]
    rfl

theorem sort_append {blocks : List Block} (h : ∀ block ∈ blocks, block.Proper) (sorted : Sorted)
    (rest : List String) :
    sort sorted (render blocks ++ rest) = sort (sorted.collect blocks) rest := by
  induction blocks generalizing sorted with
  | nil => rfl
  | cons block blocks ih =>
    have hrender : render (block :: blocks) ++ rest = block.render ++ (render blocks ++ rest) :=
      List.append_assoc ..
    rw [hrender, sort_block (h block List.mem_cons_self),
      ih (fun b hb => h b (List.mem_cons_of_mem _ hb))]
    rfl

theorem sort_of_offends {arguments : List String} {e : OptionsError} (h : Offends arguments e)
    (sorted : Sorted) : sort sorted arguments = .error e := by
  cases h with
  | noFile => rw [sort_cons, if_neg (by decide), if_pos rfl]
  | unknown rest hflag hplain houtput =>
    rw [sort_cons, if_neg hplain, if_neg houtput, if_pos (isFlag_iff.2 hflag)]

/-- The arguments are blocks, up to their end or up to a flag that nothing can be made of. -/
def Divides (arguments : List String) : Prop :=
  ∃ blocks rest, (∀ block ∈ blocks, block.Proper) ∧ arguments = render blocks ++ rest ∧
    (rest = [] ∨ ∃ e, Offends rest e)

theorem Divides.cons {arguments : List String} (h : Divides arguments) (block : Block)
    (hblock : block.Proper) : Divides (block.render ++ arguments) := by
  obtain ⟨blocks, rest, hproper, rfl, hrest⟩ := h
  refine ⟨block :: blocks, rest, List.forall_mem_cons.2 ⟨hblock, hproper⟩, ?_, hrest⟩
  exact (List.append_assoc ..).symm

theorem Divides.of_offends {arguments : List String} {e : OptionsError}
    (h : Offends arguments e) : Divides arguments :=
  ⟨[], arguments, nofun, rfl, .inr ⟨e, h⟩⟩

/-- Every command line can be divided. -/
theorem divides (arguments : List String) : Divides arguments := by
  -- the cases are those of the scan, whatever it has sorted before
  induction ({} : Sorted), arguments using sort.induct with
  | case1 _ => exact ⟨[], [], nofun, rfl, .inl rfl⟩
  | case2 _ rest ih => exact ih.cons .plain trivial
  | case3 _ _ => exact .of_offends .noFile
  | case4 _ path rest _ ih => exact ih.cons (.output path) trivial
  | case5 _ flag rest hplain houtput hflag =>
    exact .of_offends (.unknown rest (isFlag_iff.1 hflag) hplain houtput)
  | case6 _ argument rest _ _ hflag ih =>
    exact ih.cons (.positional argument) (mt isFlag_iff.2 hflag)

/-! ## What blocks ask for -/

theorem positionals_cons (block : Block) (blocks : List Block) :
    positionals (block :: blocks) = block.positional?.toList ++ positionals blocks := by
  cases block <;> rfl

theorem outputs_cons (block : Block) (blocks : List Block) :
    outputs (block :: blocks) = block.output?.toList ++ outputs blocks := by
  cases block <;> rfl

/-- All positional arguments are kept in order, and of the files the last one. -/
theorem collect_eq (sorted : Sorted) (blocks : List Block) :
    sorted.collect blocks =
      { positional := sorted.positional ++ positionals blocks
        output := (outputs blocks).getLast?.or sorted.output
        plain := sorted.plain || decide (.plain ∈ blocks) } := by
  induction blocks generalizing sorted with
  | nil => simp [Sorted.collect, positionals, outputs]
  | cons block blocks ih =>
    have hcollect : sorted.collect (block :: blocks) = (sorted.add block).collect blocks := rfl
    rw [hcollect, ih, positionals_cons, outputs_cons]
    cases block with
    | plain => simp [Sorted.add, Block.positional?, Block.output?]
    | output path =>
      -- the file of this block counts only if no later block names one
      simp [Sorted.add, Block.positional?, Block.output?, List.getLast?_cons]
    | positional argument => simp [Sorted.add, Block.positional?, Block.output?]

theorem parse_render {blocks : List Block} (h : ∀ block ∈ blocks, block.Proper) :
    parse (render blocks) =
      ofSorted
        { positional := positionals blocks
          output := (outputs blocks).getLast?
          plain := decide (.plain ∈ blocks) } := by
  have hsort := sort_append h {} []
  rw [List.append_nil, collect_eq, sort] at hsort
  rw [parse, hsort]
  simp

theorem parse_of_offends {blocks : List Block} (h : ∀ block ∈ blocks, block.Proper)
    {rest : List String} {e : OptionsError} (hrest : Offends rest e) :
    parse (render blocks ++ rest) = .error e := by
  rw [parse, sort_append h, sort_of_offends hrest]

theorem ofSorted_eq_ok_iff {sorted : Sorted} {options : Options} :
    ofSorted sorted = .ok options ↔
      sorted.positional = options.program :: options.savedState.toList ∧
        options.output = sorted.output ∧ options.plain = sorted.plain := by
  obtain ⟨program, savedState, output, plain⟩ := options
  rw [ofSorted]
  rcases sorted.positional with _ | ⟨first, _ | ⟨second, _ | ⟨extra, rest⟩⟩⟩
  · simp
  · cases savedState <;> simp [eq_comm]
  · cases savedState <;> simp [eq_comm, and_assoc]
  · cases savedState <;> simp

theorem ofSorted_eq_error_iff {sorted : Sorted} {e : OptionsError} :
    ofSorted sorted = .error e ↔ Miscounts sorted.positional e := by
  obtain ⟨positional, output, plain⟩ := sorted
  constructor
  · intro h
    rcases positional with _ | ⟨first, _ | ⟨second, _ | ⟨extra, rest⟩⟩⟩
    · cases h
      exact .none
    · cases h
    · cases h
    · cases h
      exact .tooMany first second extra rest
  · intro h
    cases h with
    | none => rfl
    | tooMany program savedState extra rest => rfl

theorem Scanned.parse_eq_ok_iff {arguments : List String} {blocks : List Block}
    (h : Scanned arguments blocks) {options : Options} :
    parse arguments = .ok options ↔ Asks blocks options := by
  rw [h.arguments_eq, parse_render h.proper, ofSorted_eq_ok_iff]
  constructor
  · rintro ⟨hpositionals, houtput, hplain⟩
    exact ⟨hpositionals, houtput, by rw [hplain, decide_eq_true_iff]⟩
  · rintro ⟨hpositionals, houtput, hplain⟩
    exact ⟨hpositionals, houtput, Bool.eq_iff_iff.2 (hplain.trans decide_eq_true_iff.symm)⟩

theorem Scanned.parse_eq_error_iff {arguments : List String} {blocks : List Block}
    (h : Scanned arguments blocks) {e : OptionsError} :
    parse arguments = .error e ↔ Miscounts (positionals blocks) e := by
  rw [h.arguments_eq, parse_render h.proper, ofSorted_eq_error_iff]

/-- A command line is understood if it is blocks, with one or two positional arguments among
    them. -/
theorem exists_parse_iff (arguments : List String) :
    (∃ options, parse arguments = .ok options) ↔
      ∃ blocks, Scanned arguments blocks ∧
        ((positionals blocks).length = 1 ∨ (positionals blocks).length = 2) := by
  constructor
  · rintro ⟨options, hparse⟩
    obtain ⟨blocks, rest, hproper, rfl, rfl | ⟨e, hrest⟩⟩ := divides arguments
    · have hscanned : Scanned (render blocks ++ []) blocks := ⟨hproper, List.append_nil _⟩
      have hasks := hscanned.parse_eq_ok_iff.1 hparse
      refine ⟨blocks, hscanned, ?_⟩
      rw [hasks.positionals_eq]
      cases options.savedState <;> simp
    · rw [parse_of_offends hproper hrest] at hparse
      cases hparse
  · rintro ⟨blocks, hscanned, hcount⟩
    cases hparse : parse arguments with
    | ok options => exact ⟨options, rfl⟩
    | error e =>
      -- an error would mean that there are too few positional arguments or too many
      have hne := (hscanned.parse_eq_error_iff.1 hparse).length_ne
      omega

/-- The error is that of the first flag that nothing can be made of, and only if there is
    none, that of a positional argument. -/
theorem parse_eq_error_iff (arguments : List String) (e : OptionsError) :
    parse arguments = .error e ↔
      (∃ blocks rest, (∀ block ∈ blocks, block.Proper) ∧ arguments = render blocks ++ rest ∧
        Offends rest e) ∨
      ∃ blocks, Scanned arguments blocks ∧ Miscounts (positionals blocks) e := by
  constructor
  · intro hparse
    obtain ⟨blocks, rest, hproper, rfl, rfl | ⟨e', hrest⟩⟩ := divides arguments
    · have hscanned : Scanned (render blocks ++ []) blocks := ⟨hproper, List.append_nil _⟩
      exact .inr ⟨blocks, hscanned, hscanned.parse_eq_error_iff.1 hparse⟩
    · rw [parse_of_offends hproper hrest] at hparse
      cases hparse
      exact .inl ⟨blocks, rest, hproper, rfl, hrest⟩
  · rintro (⟨blocks, rest, hproper, rfl, hrest⟩ | ⟨blocks, hscanned, hmiscounts⟩)
    · exact parse_of_offends hproper hrest
    · exact hscanned.parse_eq_error_iff.2 hmiscounts

/-! ## Any order -/

namespace Rearranged

variable {blocks blocks' : List Block}

theorem proper (h : Rearranged blocks blocks') (hproper : ∀ block ∈ blocks, block.Proper) :
    ∀ block ∈ blocks', block.Proper :=
  fun block hmem => hproper block (h.perm.mem_iff.2 hmem)

/-- Rearranged blocks ask for the same. -/
theorem parse_eq (h : Rearranged blocks blocks') (hproper : ∀ block ∈ blocks, block.Proper) :
    parse (render blocks') = parse (render blocks) := by
  rw [parse_render hproper, parse_render (h.proper hproper), h.positionals_eq, h.outputs_eq]
  simp only [h.perm.mem_iff]

end Rearranged

theorem asks_blocks (options : Options) : Asks options.blocks options := by
  obtain ⟨program, savedState, output, plain⟩ := options
  refine ⟨?_, ?_, ?_⟩
  · cases savedState <;> cases output <;> cases plain <;> rfl
  · cases savedState <;> cases output <;> cases plain <;> rfl
  · cases savedState <;> cases output <;> cases plain <;> simp [blocks]

theorem Asks.rearranged {blocks blocks' : List Block} {options : Options} (h : Asks blocks options)
    (hrearranged : Rearranged blocks blocks') : Asks blocks' options where
  positionals_eq := hrearranged.positionals_eq.trans h.positionals_eq
  output_eq := by rw [h.output_eq, hrearranged.outputs_eq]
  plain_iff := h.plain_iff.trans hrearranged.perm.mem_iff

theorem proper_blocks {options : Options} (hprogram : ¬['-', '-'] <+: options.program.toList)
    (hsaved : ∀ path, options.savedState = some path → ¬['-', '-'] <+: path.toList) :
    ∀ block ∈ options.blocks, block.Proper := by
  intro block hmem
  simp only [blocks, List.mem_append, List.mem_cons, List.mem_map, Option.mem_toList] at hmem
  rcases hmem with ((rfl | ⟨path, hpath, rfl⟩) | ⟨path, -, rfl⟩) | hplain
  · exact hprogram
  · exact hsaved path hpath
  · trivial
  · split at hplain
    · rw [List.mem_singleton.1 hplain]
      trivial
    · cases hplain

/-- Arguments may come in any order. A command line is understood if and only if it is
    blocks, with one or two positional arguments among them: these are the program and the
    saved state, the last file named is the output, and the console is plain if `--plain`
    is one of the blocks. Blocks may be rearranged, as long as positional arguments and
    files stay in their order, and options are understood in whatever order their blocks
    are written. If the command line is refused, then for the first flag that nothing can be
    made of, and for the number of positional arguments only if there is no such flag. -/
theorem arguments_in_any_order (arguments : List String) :
    ((∃ options, parse arguments = .ok options) ↔
      ∃ blocks, Scanned arguments blocks ∧
        ((positionals blocks).length = 1 ∨ (positionals blocks).length = 2)) ∧
    (∀ blocks, Scanned arguments blocks →
      (∀ options, parse arguments = .ok options ↔ Asks blocks options) ∧
        ∀ blocks', Rearranged blocks blocks' → parse (render blocks') = parse arguments) ∧
    (∀ options : Options, ¬['-', '-'] <+: options.program.toList →
      (∀ path, options.savedState = some path → ¬['-', '-'] <+: path.toList) →
      ∀ blocks, Rearranged options.blocks blocks → parse (render blocks) = .ok options) ∧
    ∀ e, parse arguments = .error e ↔
      (∃ blocks rest, (∀ block ∈ blocks, block.Proper) ∧ arguments = render blocks ++ rest ∧
        Offends rest e) ∨
      ∃ blocks, Scanned arguments blocks ∧ Miscounts (positionals blocks) e := by
  refine ⟨exists_parse_iff arguments, ?_, ?_, parse_eq_error_iff arguments⟩
  · intro blocks hscanned
    refine ⟨fun options => hscanned.parse_eq_ok_iff, fun blocks' hrearranged => ?_⟩
    rw [hscanned.arguments_eq]
    exact hrearranged.parse_eq hscanned.proper
  · intro options hprogram hsaved blocks hrearranged
    have hproper := hrearranged.proper (proper_blocks hprogram hsaved)
    have hscanned : Scanned (render blocks) blocks := ⟨hproper, rfl⟩
    exact hscanned.parse_eq_ok_iff.2 (options.asks_blocks.rearranged hrearranged)

/-- Options whose output file has the name of a flag. -/
def flagForFile : Options where
  program := "adv.um"
  savedState := some "game.umst"
  output := some "--plain"
  plain := true

/-- Their blocks in another order. -/
def mixed : List Block :=
  [.output "--plain", .positional "adv.um", .plain, .positional "game.umst"]

theorem arguments_in_any_order_mixed :
    render mixed = ["--output", "--plain", "adv.um", "--plain", "game.umst"] ∧
    Scanned (render mixed) mixed ∧ Rearranged flagForFile.blocks mixed ∧
    parse (render mixed) = .ok flagForFile ∧
    parse (render flagForFile.blocks) = .ok flagForFile := by
  obtain ⟨-, hscanned, hwritten, -⟩ := arguments_in_any_order (render flagForFile.blocks)
  have hprogram : ¬['-', '-'] <+: flagForFile.program.toList := by decide
  have hsaved : ∀ path, flagForFile.savedState = some path → ¬['-', '-'] <+: path.toList := by
    rintro path h
    cases h
    decide
  have hrearranged : Rearranged flagForFile.blocks mixed := ⟨by decide, rfl, rfl⟩
  have hproper := proper_blocks hprogram hsaved
  have hparse := hwritten flagForFile hprogram hsaved mixed hrearranged
  have hsame := (hscanned flagForFile.blocks ⟨hproper, rfl⟩).2 mixed hrearranged
  exact ⟨rfl, ⟨hrearranged.proper hproper, rfl⟩, hrearranged, hparse, hsame.symm.trans hparse⟩

example : parse ["a", "--output", "--fast", "--slow", "b", "c", "--output"] =
    .error (.unknownOption "--slow") := rfl

end UniversalMachine.Options
