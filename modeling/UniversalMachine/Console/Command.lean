/-
  UniversalMachine.Console.Command

  Lines typed at a console. A line that starts with a colon is a command to the
  console itself; every other line is input for the machine.
-/

import UniversalMachine.Text.Blank

namespace UniversalMachine

/-- What a console line asks for. -/
inductive Command where
  | input (line : String)
  | save (path : String)
  | load (path : String)
  | undo
  | quit
  deriving DecidableEq, Repr

/-- Why a command was not understood. -/
inductive CommandError where
  /-- A command that needs a file name was given none. -/
  | missingPath (name : String)
  | unknown (name : String)
  deriving DecidableEq, Repr

/-- The wording of a misunderstood command. -/
def CommandError.message : CommandError → String
  | .missingPath name => s!"Usage: :{name} <filename>"
  | .unknown name => s!"Unknown command ':{name}' (try :save, :load, :undo, :quit)"

namespace Command

/-- The command with a name and a trimmed argument. Arguments of commands that take
    none are ignored. -/
def ofParts (name argument : String) : Except CommandError Command :=
  if name = "save" then
    if argument = "" then .error (.missingPath name) else .ok (.save argument)
  else if name = "load" then
    if argument = "" then .error (.missingPath name) else .ok (.load argument)
  else if name = "undo" then .ok .undo
  else if name = "quit" ∨ name = "q" then .ok .quit
  else .error (.unknown name)

/-- Reads a console line. A command's name ends at the first white space, and its
    argument is what follows, without white space at either end. -/
def parse (line : String) : Except CommandError Command :=
  match line.toList with
  | ':' :: rest =>
    ofParts (String.ofList (rest.takeWhile fun c => !Text.isBlank c))
      (String.ofList (Text.trim (rest.dropWhile fun c => !Text.isBlank c)))
  | _ => .ok (.input line)

end Command

end UniversalMachine
