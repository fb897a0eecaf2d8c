/-
  UniversalMachine.Text.Utf8

  UTF-8 text in byte strings that may hold anything.

  A byte string is read from left to right as characters and damaged places. A
  damaged place is the longest start of a well-formed sequence that is not
  carried on, or a single byte that starts none. Reading byte by byte needs only
  the sequence under way (`Sequence`): how many bytes it still lacks, and which
  values the next of them may take. The narrower ranges after `E0`, `ED`, `F0`
  and `F4` keep out overlong forms, surrogates and values past `10FFFF`.

  `decodeLossy` shows each damaged place as U+FFFD, `decode?` refuses it.
-/

import UniversalMachine.Word

namespace UniversalMachine.Text.Utf8

/-- A multi-byte sequence that has begun. -/
structure Sequence where
  /-- The bits collected so far. -/
  value : Nat
  /-- How many bytes are lacking after the next one. -/
  further : Nat
  /-- The least value the next byte may have. -/
  low : UInt8
  /-- The greatest value the next byte may have. -/
  high : UInt8
  deriving DecidableEq, Repr

/-- Reads a byte where a sequence may begin: what is complete with it, `none` standing
    for a damaged place, and the sequence under way after it. -/
def opening (b : UInt8) : List (Option Char) × Option Sequence :=
  if b < 0x80 then ([some (Char.ofNat b.toNat)], none)
  else if b < 0xC2 then ([none], none)
  else if b < 0xE0 then ([], some ⟨b.toNat - 0xC0, 0, 0x80, 0xBF⟩)
  else if b < 0xF0 then
    let low := if b = 0xE0 then 0xA0 else 0x80
    let high := if b = 0xED then 0x9F else 0xBF
    ([], some ⟨b.toNat - 0xE0, 1, low, high⟩)
  else if b < 0xF5 then
    let low := if b = 0xF0 then 0x90 else 0x80
    let high := if b = 0xF4 then 0x8F else 0xBF
    ([], some ⟨b.toNat - 0xF0, 2, low, high⟩)
  else ([none], none)

/-- Reads the next byte. One that does not carry on the sequence under way leaves a
    damaged place behind and is read afresh. -/
def step : Option Sequence → UInt8 → List (Option Char) × Option Sequence
  | none, b => opening b
  | some s, b =>
    if s.low ≤ b ∧ b ≤ s.high then
      let value := s.value * 64 + (b.toNat - 0x80)
      match s.further with
      | 0 => ([some (Char.ofNat value)], none)
      | further + 1 => ([], some ⟨value, further, 0x80, 0xBF⟩)
    else
      let (complete, next) := opening b
      (none :: complete, next)

/-- The characters of a byte string, given the sequence under way before it. -/
def scan : Option Sequence → Bytes → List (Option Char)
  | none, [] => []
  | some _, [] => [none]
  | state, b :: rest => (step state b).1 ++ scan (step state b).2 rest

/-- The replacement character U+FFFD. -/
def replacement : Char :=
  Char.ofNat 0xFFFD

/-- The characters of a byte string with each damaged place replaced. -/
def decodeLossy (bytes : Bytes) : List Char :=
  (scan none bytes).map (·.getD replacement)

/-- The characters of a byte string, if it has no damaged place. -/
def decode? (bytes : Bytes) : Option (List Char) :=
  (scan none bytes).mapM id

/-- The bytes of a text. -/
def encode (text : String) : Bytes :=
  text.toList.flatMap String.utf8EncodeChar

end UniversalMachine.Text.Utf8
