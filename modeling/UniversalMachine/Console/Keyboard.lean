/-
  UniversalMachine.Console.Keyboard

  Keys and the bytes a terminal sends for them.

  Ordinary characters are sent as UTF-8, control keys as the bytes below 32, and the
  other keys as sequences that begin with the escape byte. An escape byte is the
  escape key only if nothing follows it, or another escape byte does; before any
  other key it means that the alternate key is held, which makes no difference here.
  A sequence that makes no sense is used up as far as it was read.

  The enter key sends a carriage return. A terminal that edits lines would turn it
  into a line feed; one in raw mode does not, and there a line feed is what control
  and `j` send.
-/

import UniversalMachine.Console.Terminal
import UniversalMachine.Text.Lines

namespace UniversalMachine.Keyboard

/-- The key that sends a single character, to a terminal in raw mode or not. -/
def ofChar (raw : Bool) (c : Char) : Key :=
  if c = '\r' then .enter
  else if c = '\n' ∧ ¬raw then .enter
  else if c = '\t' then .tab
  else if c = '\x1b' then .escape
  else if c = '\x7f' then .backspace
  else if c = '\x00' then .control ' '
  else if c.toNat < 0x1b then .control (Char.ofNat (c.toNat + 0x60))
  else if c.toNat < 0x20 then .control (Char.ofNat (c.toNat + 0x18))
  else .character c

/-! ## Sending -/

/-- A bracketed sequence. -/
def bracketed (sequence : String) : Bytes :=
  27 :: 91 :: Text.Utf8.encode sequence

/-- The bytes a key sends. -/
def bytes : Key → Bytes
  | .character c => String.utf8EncodeChar c
  | .control c =>
    if '4' ≤ c ∧ c ≤ '7' then [UInt8.ofNat (c.toNat - 0x18)]
    else [UInt8.ofNat (c.toNat % 0x20)]
  | .enter => [13]
  | .escape => [27]
  | .tab => [9]
  | .backTab => bracketed "Z"
  | .up => bracketed "A"
  | .down => bracketed "B"
  | .pageUp => bracketed "5~"
  | .pageDown => bracketed "6~"
  | .backspace => [127]
  | .other sent => sent

/-! ## Receiving -/

/-- What received bytes amount to. -/
inductive Reading where
  /-- More bytes are needed. -/
  | incomplete
  /-- A key was pressed. -/
  | key (key : Key)
  /-- The bytes stand for no key. -/
  | nothing
  deriving DecidableEq, Repr

/-- The number of bytes in the UTF-8 sequence that begins with a byte, if one can. -/
def sequenceLength? (first : UInt8) : Option Nat :=
  if first < 0x80 then some 1
  else if first < 0xc0 then none
  else if first < 0xe0 then some 2
  else if first < 0xf0 then some 3
  else if first < 0xf8 then some 4
  else none

/-- Reads a single character. -/
def readCharacter (received : Bytes) : Reading :=
  match received with
  | [] => .incomplete
  | first :: rest =>
    match Text.Utf8.decode? received with
    | some (c :: _) => .key (ofChar true c)
    | _ =>
      match sequenceLength? first with
      | none => .nothing
      | some length =>
        if rest.all (fun byte => byte &&& 0xc0 = 0x80) ∧ received.length < length then
          .incomplete
        else .nothing

/-- A number in decimal digits, with or without a plus sign, up to a limit. -/
def number? (limit : Nat) (text : Bytes) : Option Nat :=
  let digits := if text.head? = some 43 then text.tail else text
  if digits.isEmpty ∨ ¬digits.all (fun byte => 48 ≤ byte && byte ≤ 57) then none
  else
    let value := digits.foldl (fun value byte => value * 10 + (byte.toNat - 48)) 0
    if value ≤ limit then some value else none

/-- The modifier keys held, and whether the key goes down rather than up or repeating. -/
structure Modifiers where
  shift : Bool
  control : Bool
  pressed : Bool

/-- Reads the modifiers from a field of a sequence. -/
def modifiers? (fields : List Bytes) : Option Modifiers := do
  let parts := Text.pieces 58 (← fields[1]?)
  let mask := (← number? 255 (← parts[0]?)) - 1
  let kind := (parts[1]?.bind (number? 255)).getD 1
  return { shift := mask % 2 = 1, control := mask / 4 % 2 = 1, pressed := kind ≠ 2 ∧ kind ≠ 3 }

/-- No modifiers. -/
def unmodified : Modifiers := { shift := false, control := false, pressed := true }

/-- Reads a key that was pressed, or ignores one that was not. -/
def pressed (modifiers : Modifiers) (key : Key) : Reading :=
  if modifiers.pressed then .key key else .nothing

/-- The key of a sequence's final letter; most of them mean nothing to the console. -/
def letterKey? (sent : Bytes) (letter : UInt8) : Option Key :=
  if letter = 65 then some .up
  else if letter = 66 then some .down
  else if letter ∈ [67, 68, 70, 72, 80, 81, 82, 83] then some (.other sent)
  else none

/-- The key with a number; most of them mean nothing to the console. -/
def numberedKey? (sent : Bytes) (number : Nat) : Option Key :=
  if number = 5 then some .pageUp
  else if number = 6 then some .pageDown
  else if number ∈ [1, 2, 3, 4, 7, 8, 11, 12, 13, 14, 15, 17, 18, 19, 20, 21, 23, 24, 25, 26,
      28, 29, 31, 32, 33, 34] then some (.other sent)
  else none

/-- The key of the number pad or the function keys with a code point set aside for it. -/
def functionalKey? (sent : Bytes) (code : Nat) : Option Key :=
  if 57399 ≤ code ∧ code ≤ 57408 then some (.character (Char.ofNat (code - 57399 + 48)))
  else if 57409 ≤ code ∧ code ≤ 57416 then
    "./*-+\r=,".toList[code - 57409]?.map (ofChar true)
  else if code = 57419 then some .up
  else if code = 57420 then some .down
  else if code = 57421 then some .pageUp
  else if code = 57422 then some .pageDown
  else if 57358 ≤ code ∧ code ≤ 57363 ∨ 57376 ≤ code ∧ code ≤ 57454 then some (.other sent)
  else none

/-- A character, if a number is the code point of one. -/
def character? (code : Nat) : Option Char :=
  if h : code.isValidChar then some (Char.ofNatAux code h) else none

/-- A character typed with some modifiers. -/
def typed (modifiers : Modifiers) (c : Char) : Key :=
  if modifiers.control then .control c else .character c

/-- The key for a code point; shift with a tab goes back. -/
def codedKey? (sent : Bytes) (modifiers : Modifiers) (code : Nat) : Option Key :=
  functionalKey? sent code <|>
    (character? code).map fun c =>
      if c = '\x1b' then .escape
      else if c = '\r' then .enter
      else if c = '\t' then if modifiers.shift then .backTab else .tab
      else if c = '\x7f' then .backspace
      else typed modifiers c

/-- Reads a key sent as a code point; with shift, an alternative may be given. -/
def readCoded (sent : Bytes) (fields : List Bytes) : Reading :=
  let modifiers := (modifiers? fields).getD unmodified
  let codes := Text.pieces 58 (fields.headD [])
  let alternative :=
    if modifiers.shift then ((codes[1]?.bind (number? 0xffffffff)).bind character?) else none
  match (number? 0xffffffff (codes.headD [])).bind (codedKey? sent modifiers) with
  | none => .nothing
  | some key => pressed modifiers ((alternative.map (typed modifiers)).getD key)

/-- Reads a sequence of numbers that a final byte has ended. -/
def readNumbered (sent body : Bytes) (final : UInt8) : Reading :=
  let fields := Text.pieces 59 body
  if final = 77 ∨ final = 82 then .nothing
  else if final = 126 then
    match (number? 255 (fields.headD [])).bind (numberedKey? sent) with
    | some key => pressed ((modifiers? fields).getD unmodified) key
    | none => .nothing
  else if final = 117 then readCoded sent fields
  else
    match modifiers? fields, letterKey? sent final with
    | some modifiers, some key => pressed modifiers key
    | none, some key =>
      if body.getLast?.any (fun byte => 48 ≤ byte && byte ≤ 57) then .key key else .nothing
    | _, none => .nothing

/-- Reads a bracketed sequence, given without the escape byte and the bracket. Pasted
    text, reports of the mouse and of the terminal itself are read to their end and
    stand for nothing. -/
def readBracketed (received : Bytes) : Reading :=
  let sent := 27 :: 91 :: received
  match received with
  | [] => .incomplete
  | first :: rest =>
    let final := received.getLast?.getD 0
    if first = 90 then .key .backTab
    else if first = 82 then .nothing
    else if first = 91 then if rest.isEmpty then .incomplete else .nothing
    else if first = 77 then if rest.length < 3 then .incomplete else .nothing
    else if first = 60 then if final = 77 ∨ final = 109 then .nothing else .incomplete
    else if first = 63 then
      if final = 99 ∨ final = 117 ∧ received.length ≥ 3 then .nothing else .incomplete
    else if 48 ≤ first ∧ first ≤ 57 then
      if rest.isEmpty ∨ final < 64 ∨ 126 < final then .incomplete
      else if received.take 4 = [50, 48, 48, 126] then
        if sent.drop (sent.length - 6) = bracketed "201~" then .nothing else .incomplete
      else readNumbered sent received.dropLast final
    else
      match letterKey? sent first with
      | some key => .key key
      | none => .nothing

/-- Reads bytes; `more` tells whether others have arrived after them. -/
def read (more : Bool) : Bytes → Reading
  | [] => .incomplete
  | [27] => if more then .incomplete else .key .escape
  | 27 :: 27 :: _ => .key .escape
  | [27, 79] => .incomplete
  | 27 :: 79 :: letter :: _ =>
    match letterKey? [27, 79, letter] letter with
    | some key => .key key
    | none => .nothing
  | 27 :: 91 :: rest => readBracketed rest
  | 27 :: rest => readCharacter rest
  | received => readCharacter received

/-- If the bytes end in a report of where the cursor is: the bytes before the report, and the
    column and row, counted from 1. -/
def report? (received : Bytes) : Option (Bytes × (Nat × Nat)) :=
  match received.reverse with
  | 82 :: rest =>
    let fields := Text.pieces 59 (rest.takeWhile (· ≠ 91)).reverse
    match rest.dropWhile (· ≠ 91), fields.map (number? 0xffff) with
    | 91 :: 27 :: before, [some row, some column] => some (before.reverse, (column, row))
    | _, _ => none
  | _ => none

/-- The first key in a stream of bytes and the bytes after it. `received` are bytes that
    were read already but do not make a key yet. -/
def next (received : Bytes) : (stream : Bytes) → Option (Key × Bytes)
  | [] => none
  | byte :: stream =>
    match read (!stream.isEmpty) (received ++ [byte]) with
    | .incomplete => next (received ++ [byte]) stream
    | .key key => some (key, stream)
    | .nothing => next [] stream

end UniversalMachine.Keyboard
