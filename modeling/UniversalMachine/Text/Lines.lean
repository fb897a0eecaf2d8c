/-
  UniversalMachine.Text.Lines

  Splitting a sequence at a separator, and printed output into lines.
-/

import UniversalMachine.Text.Utf8

namespace UniversalMachine

/-- The byte that ends a line. -/
def newline : UInt8 := 10

namespace Text

variable {α : Type} [DecidableEq α]

/-- Puts an element in front of the first piece. -/
def consHead (a : α) : List (List α) → List (List α)
  | [] => [[a]]
  | piece :: pieces => (a :: piece) :: pieces

/-- The pieces between separators. There is one more piece than there are separators,
    and pieces may be empty. -/
def pieces (separator : α) : List α → List (List α)
  | [] => [[]]
  | a :: rest =>
    if a = separator then [] :: pieces separator rest
    else consHead a (pieces separator rest)

/-- Drops the last piece when it is empty. -/
def dropEmptyLast (pieces : List (List α)) : List (List α) :=
  if pieces.getLast? = some [] then pieces.dropLast else pieces

/-- The lines of printed output: a newline at the very end starts no further line. -/
def lines (bytes : Bytes) : List String :=
  (dropEmptyLast (pieces '\n' (Utf8.decodeLossy bytes))).map String.ofList

/-- Printed output as text. -/
def ofBytes (bytes : Bytes) : String :=
  String.ofList (Utf8.decodeLossy bytes)

end Text

end UniversalMachine
