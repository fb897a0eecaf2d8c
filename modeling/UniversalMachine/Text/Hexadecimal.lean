/-
  UniversalMachine.Text.Hexadecimal

  Words as eight lowercase hexadecimal digits, the form in which instructions,
  registers and array contents are shown.
-/

import UniversalMachine.Word

namespace UniversalMachine.Text

/-- The lowercase digit for a value below sixteen. -/
def hexDigit (n : Nat) : Char :=
  if n < 10 then Char.ofNat (48 + n) else Char.ofNat (87 + n)

/-- The lowest `count` hexadecimal digits of a number, most significant first. -/
def hexDigits : (count : Nat) → Nat → List Char
  | 0, _ => []
  | count + 1, n => hexDigits count (n / 16) ++ [hexDigit (n % 16)]

/-- A word as eight lowercase hexadecimal digits. -/
def hex8 (w : Word) : String :=
  String.ofList (hexDigits 8 w.toNat)

end UniversalMachine.Text
