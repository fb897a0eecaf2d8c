/-
  UniversalMachine.Console.Options

  The command line: a program, perhaps a saved state, and flags in any order.
-/

namespace UniversalMachine

/-- What the command line asks for. -/
structure Options where
  program : String
  savedState : Option String := none
  output : Option String := none
  plain : Bool := false
  deriving DecidableEq, Repr

/-- Why a command line was refused. -/
inductive OptionsError where
  | outputNeedsFile
  | unknownOption (flag : String)
  | noProgram
  | unexpectedArgument (argument : String)
  deriving DecidableEq, Repr

/-- The wording of a refused command line. -/
def OptionsError.message : OptionsError → String
  | .outputNeedsFile => "--output needs a file name"
  | .unknownOption flag => s!"Unknown option '{flag}'"
  | .noProgram => "No program image provided"
  | .unexpectedArgument argument => s!"Unexpected argument '{argument}'"

namespace Options

/-- Arguments sorted by kind, before the positional ones are told apart. -/
structure Sorted where
  positional : List String := []
  output : Option String := none
  plain : Bool := false
  deriving DecidableEq, Repr

/-- Whether an argument is a flag. -/
def isFlag (argument : String) : Bool :=
  ['-', '-'].isPrefixOf argument.toList

/-- Sorts arguments from left to right. `--output` takes the argument after it,
    whatever that looks like, and the last `--output` wins. -/
def sort (sorted : Sorted) : List String → Except OptionsError Sorted
  | [] => .ok sorted
  | argument :: rest =>
    if argument = "--plain" then sort { sorted with plain := true } rest
    else if argument = "--output" then
      match rest with
      | [] => .error .outputNeedsFile
      | path :: rest => sort { sorted with output := some path } rest
    else if isFlag argument then .error (.unknownOption argument)
    else sort { sorted with positional := sorted.positional ++ [argument] } rest

/-- Tells the positional arguments apart: the program, then perhaps a saved state. -/
def ofSorted (sorted : Sorted) : Except OptionsError Options :=
  let options (program : String) (savedState : Option String) : Options :=
    { program, savedState, output := sorted.output, plain := sorted.plain }
  match sorted.positional with
  | [] => .error .noProgram
  | [program] => .ok (options program none)
  | [program, savedState] => .ok (options program (some savedState))
  | _ :: _ :: extra :: _ => .error (.unexpectedArgument extra)

/-- Reads a command line. -/
def parse (arguments : List String) : Except OptionsError Options :=
  match sort {} arguments with
  | .ok sorted => ofSorted sorted
  | .error e => .error e

end Options

end UniversalMachine
