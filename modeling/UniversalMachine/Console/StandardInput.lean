/-
  UniversalMachine.Console.StandardInput

  Standard input: the bytes left to read, and whether they come from a terminal. A
  terminal passes on what is typed as it is, and gives keys to a program that wants
  them.
-/

import UniversalMachine.Console.Keyboard

namespace UniversalMachine

/-- What is left to read on standard input. -/
structure StandardInput where
  rest : Bytes := []
  isTerminal : Bool := false
  deriving DecidableEq, Repr

namespace StandardInput

/-- The bytes up to and including the first newline, and the rest. -/
def splitLine : Bytes → Bytes × Bytes
  | [] => ([], [])
  | byte :: rest =>
    if byte = newline then ([byte], rest)
    else
      let (line, rest) := splitLine rest
      (byte :: line, rest)

/-- Reads a line with its ending; nothing at the end. -/
def readLine (input : StandardInput) : Bytes × StandardInput :=
  let (line, rest) := splitLine input.rest
  (line, { input with rest })

/-- Reads a key, if there is one. -/
def readKey (input : StandardInput) : Option Key × StandardInput :=
  match Keyboard.next [] input.rest with
  | some (key, rest) => (some key, { input with rest })
  | none => (none, { input with rest := [] })

end StandardInput

end UniversalMachine
