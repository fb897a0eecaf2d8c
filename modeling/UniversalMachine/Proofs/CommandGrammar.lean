/-
  UniversalMachine.Proofs.CommandGrammar

  Console lines and their grammar.

  Behind the colon a command line has a name, which has no white space in it, and an
  argument, which has none at its ends; white space stands between the two and may stand
  behind them. `Command.Parts` says that a text is written in this way. Every text is,
  and in one way only (`parts`, `Parts.eq`), so the name and the argument
  decide what a line asks for (`Parts.parse_eq`). In particular a file name that a line
  yields can be put into a line again, and comes out of it as it was
  (`parse_path`).
-/

import Mathlib.Data.List.DropRight
import UniversalMachine.Console.Command

namespace UniversalMachine

/-! ## Trimming -/

namespace Text

variable {cs lead middle trail : List Char}

/-- The text is white space, or empty. -/
def Blank (cs : List Char) : Prop :=
  ∀ c ∈ cs, isBlank c = true

/-- There is no white space at either end of the text. -/
def Trimmed (cs : List Char) : Prop :=
  (∀ c ∈ cs.head?, isBlank c = false) ∧ ∀ c ∈ cs.getLast?, isBlank c = false

theorem trimStart_append (h : Blank lead) : trimStart (lead ++ cs) = trimStart cs :=
  List.dropWhile_append_of_pos h

theorem trimStart_eq_self (h : ∀ c ∈ cs.head?, isBlank c = false) : trimStart cs = cs := by
  cases cs with
  | nil => rfl
  | cons c cs =>
    have hc : ¬isBlank c = true := by simp [h c rfl]
    exact List.dropWhile_cons_of_neg hc

theorem trimEnd_append (h : Blank trail) : trimEnd (cs ++ trail) = trimEnd cs := by
  have hreverse : Blank trail.reverse := fun c hmem => h c (List.mem_reverse.1 hmem)
  show (trimStart (cs ++ trail).reverse).reverse = (trimStart cs.reverse).reverse
  rw [List.reverse_append, trimStart_append hreverse]

theorem trimEnd_eq_self (h : ∀ c ∈ cs.getLast?, isBlank c = false) : trimEnd cs = cs := by
  have hreverse : trimStart cs.reverse = cs.reverse :=
    trimStart_eq_self (by rwa [List.head?_reverse])
  show (trimStart cs.reverse).reverse = cs
  rw [hreverse, List.reverse_reverse]

/-- Trimming takes white space off both ends, and nothing else. -/
theorem trim_append (hlead : Blank lead) (htrail : Blank trail) (h : Trimmed middle) :
    trim (lead ++ middle ++ trail) = middle := by
  rw [trim, List.append_assoc, trimStart_append hlead]
  cases middle with
  | nil =>
    have hnothing : trimStart (trail ++ []) = trimStart [] := trimStart_append htrail
    rw [List.append_nil] at hnothing
    rw [List.nil_append, hnothing]
    rfl
  | cons c cs =>
    have hhead : ∀ d ∈ (c :: cs ++ trail).head?, isBlank d = false := h.1
    rw [trimStart_eq_self hhead, trimEnd_append htrail, trimEnd_eq_self h.2]

theorem head?_trimStart (cs : List Char) : ∀ c ∈ (trimStart cs).head?, isBlank c = false := by
  intro c hc
  have hstart := List.head?_dropWhile_not isBlank cs
  rw [← trimStart, Option.mem_def.1 hc] at hstart
  exact hstart

theorem trimmed_trim (cs : List Char) : Trimmed (trim cs) := by
  obtain ⟨rest, hrest⟩ : trim cs <+: trimStart cs := List.rdropWhile_prefix isBlank (trimStart cs)
  constructor
  · intro c hc
    have hstart : (trimStart cs).head? = some c := by
      rw [← hrest, List.head?_append, Option.mem_def.1 hc]
      rfl
    exact head?_trimStart cs c hstart
  · intro c hc
    have hreverse := head?_trimStart (trimStart cs).reverse c
    rw [trim, trimEnd, List.getLast?_reverse] at hc
    exact hreverse hc

/-- Every text is a trimmed one with white space around it. -/
theorem exists_trim (cs : List Char) :
    ∃ lead trail, Blank lead ∧ Blank trail ∧ cs = lead ++ trim cs ++ trail := by
  refine ⟨cs.takeWhile isBlank, (trimStart cs).rtakeWhile isBlank,
    fun _ => List.mem_takeWhile_imp, fun _ => List.mem_rtakeWhile_imp, ?_⟩
  have hend : trim cs ++ (trimStart cs).rtakeWhile isBlank = trimStart cs :=
    List.rdropWhile_append_rtakeWhile
  rw [List.append_assoc, hend]
  exact List.takeWhile_append_dropWhile.symm

end Text

namespace Command

open Text

/-! ## Names and arguments -/

/-- The text is a name and an argument. The name goes up to the first white space, or to the
    end of the text; the argument is what is left, without white space at either end. -/
structure Parts (text name argument : String) : Prop where
  unbroken : ∀ c ∈ name.toList, isBlank c = false
  trimmed : Trimmed argument.toList
  written : ∃ after, text.toList = name.toList ++ after ∧ (∀ c ∈ after.head?, isBlank c = true) ∧
    ∃ lead trail, Blank lead ∧ Blank trail ∧ after = lead ++ argument.toList ++ trail

/-- The name, as a line is read. -/
def nameOf (text : String) : String :=
  String.ofList (text.toList.takeWhile fun c => !isBlank c)

/-- The argument, as a line is read. -/
def argumentOf (text : String) : String :=
  String.ofList (trim (text.toList.dropWhile fun c => !isBlank c))

theorem parse_colon (text : String) :
    parse (":" ++ text) = ofParts (nameOf text) (argumentOf text) := by
  have hline : (":" ++ text).toList = ':' :: text.toList := by simp
  rw [parse, hline]
  rfl

/-- A text can be read in one way only. -/
theorem Parts.eq {text name argument : String} (h : Parts text name argument) :
    name = nameOf text ∧ argument = argumentOf text := by
  obtain ⟨hunbroken, htrimmed, after, htext, hstops, lead, trail, hlead, htrail, rfl⟩ := h
  have hname : ∀ c ∈ name.toList, (!isBlank c) = true := fun c hc => by simp [hunbroken c hc]
  have hrest : (lead ++ argument.toList ++ trail).takeWhile (fun c => !isBlank c) = [] ∧
      (lead ++ argument.toList ++ trail).dropWhile (fun c => !isBlank c) =
        lead ++ argument.toList ++ trail := by
    cases hafter : lead ++ argument.toList ++ trail with
    | nil => exact ⟨rfl, rfl⟩
    | cons c cs =>
      have hc : isBlank c = true := hstops c (by rw [hafter]; rfl)
      simp [hc]
  constructor
  · rw [nameOf, htext, List.takeWhile_append_of_pos hname, hrest.1, List.append_nil,
      String.ofList_toList]
  · rw [argumentOf, htext, List.dropWhile_append_of_pos hname, hrest.2,
      trim_append hlead htrail htrimmed, String.ofList_toList]

/-- Every text can be read. -/
theorem parts (text : String) : Parts text (nameOf text) (argumentOf text) := by
  obtain ⟨lead, trail, hlead, htrail, htrim⟩ :=
    exists_trim (text.toList.dropWhile fun c => !isBlank c)
  refine ⟨?_, ?_, text.toList.dropWhile fun c => !isBlank c, ?_, ?_, lead, trail, hlead, htrail, ?_⟩
  · intro c hc
    rw [nameOf, String.toList_ofList] at hc
    simpa using List.mem_takeWhile_imp hc
  · rw [argumentOf, String.toList_ofList]
    exact trimmed_trim _
  · rw [nameOf, String.toList_ofList]
    exact List.takeWhile_append_dropWhile.symm
  · intro c hc
    have hstart := List.head?_dropWhile_not (fun c => !isBlank c) text.toList
    rw [Option.mem_def.1 hc] at hstart
    simpa using hstart
  · rwa [argumentOf, String.toList_ofList]

theorem Parts.parse_eq {text name argument : String} (h : Parts text name argument) :
    parse (":" ++ text) = ofParts name argument := by
  obtain ⟨hname, hargument⟩ := h.eq
  rw [parse_colon, hname, hargument]

/-! ## What a name asks for -/

/-- The commands that take a file name. -/
inductive FileVerb where
  | save
  | load

/-- The name of the command. -/
def FileVerb.name : FileVerb → String
  | .save => "save"
  | .load => "load"

/-- The command for a file. -/
def FileVerb.command : FileVerb → String → Command
  | .save => .save
  | .load => .load

/-- The names that commands have. -/
def names : List String := ["save", "load", "undo", "quit", "q"]

/-- The result is what the name and the argument ask for. -/
structure Decides (name argument : String) (result : Except CommandError Command) : Prop where
  file_iff (verb : FileVerb) (path : String) :
    result = .ok (verb.command path) ↔ name = verb.name ∧ argument = path ∧ path ≠ ""
  missingPath_iff (n : String) :
    result = .error (.missingPath n) ↔
      n = name ∧ (∃ verb : FileVerb, name = verb.name) ∧ argument = ""
  undo_iff : result = .ok .undo ↔ name = "undo"
  quit_iff : result = .ok .quit ↔ name = "quit" ∨ name = "q"
  unknown_iff (n : String) : result = .error (.unknown n) ↔ n = name ∧ name ∉ names
  ne_input (text : String) : result ≠ .ok (.input text)

theorem decides_ofParts (name argument : String) :
    Decides name argument (ofParts name argument) where
  file_iff verb path := by
    cases verb with
    | save =>
      simp only [FileVerb.command, FileVerb.name]
      grind [ofParts]
    | load =>
      simp only [FileVerb.command, FileVerb.name]
      grind [ofParts]
  missingPath_iff n := by grind [ofParts, FileVerb.name, cases FileVerb]
  undo_iff := by grind [ofParts]
  quit_iff := by grind [ofParts]
  unknown_iff n := by grind [ofParts, names]
  ne_input text := by grind [ofParts]

/-! ## Lines -/

theorem parse_of_head?_ne {line : String} (h : line.toList.head? ≠ some ':') :
    parse line = .ok (.input line) := by
  unfold parse
  split
  · rename_i rest hline
    rw [hline] at h
    exact absurd rfl h
  · rfl

theorem exists_text {line : String} (h : line.toList.head? = some ':') :
    ∃ text, line = ":" ++ text := by
  obtain ⟨cs, hcs⟩ := List.head?_eq_some_iff.1 h
  refine ⟨String.ofList cs, String.toList_inj.1 ?_⟩
  simp [hcs]

/-- A file name with a command's name and a blank in front of it. -/
theorem parts_path (verb : FileVerb) {path : String} (h : Trimmed path.toList) :
    Parts (verb.name ++ " " ++ path) verb.name path where
  unbroken := by
    have hall : verb.name.toList.all (!isBlank ·) = true := by cases verb <;> rfl
    intro c hc
    simpa using List.all_eq_true.1 hall c hc
  trimmed := h
  written := by
    refine ⟨' ' :: path.toList, by simp, ?_, [' '], [], ?_, nofun, by simp⟩
    · intro c hc
      cases hc
      rfl
    · intro c hc
      rw [List.mem_singleton.1 hc]
      rfl

theorem parse_path (verb : FileVerb) {path : String} (hne : path ≠ "") (h : Trimmed path.toList) :
    parse (":" ++ (verb.name ++ " " ++ path)) = .ok (verb.command path) := by
  rw [(parts_path verb h).parse_eq]
  exact ((decides_ofParts _ _).file_iff verb path).2 ⟨rfl, rfl, hne⟩

/-- A file name that a line yields is a part of the line. -/
theorem path_of_parse {line path : String} {verb : FileVerb}
    (h : parse line = .ok (verb.command path)) :
    path ≠ "" ∧ Trimmed path.toList ∧ path.toList <:+: line.toList := by
  by_cases hcolon : line.toList.head? = some ':'
  · obtain ⟨text, rfl⟩ := exists_text hcolon
    have hparts := parts text
    rw [hparts.parse_eq] at h
    obtain ⟨-, hargument, hne⟩ := ((decides_ofParts _ _).file_iff verb path).1 h
    rw [hargument] at hparts
    obtain ⟨after, htext, -, lead, trail, -, -, hafter⟩ := hparts.written
    refine ⟨hne, hparts.trimmed, ':' :: (nameOf text).toList ++ lead, trail, ?_⟩
    simp [htext, hafter]
  · rw [parse_of_head?_ne hcolon] at h
    cases verb <;> cases h

/-- Console lines are read by their grammar. A line that does not start with a colon is input.
    Behind a colon, the line is a name and an argument in exactly one way, and these decide
    what it asks for; it is never input. File names are not empty, have no white space at
    their ends and stand in the line as they are, and a line made of a command's name, a blank
    and such a file name yields it again. -/
theorem lines_follow_grammar (line : String) :
    (line.toList.head? ≠ some ':' → parse line = .ok (.input line)) ∧
    (∀ text, line = ":" ++ text → ∃ name argument, Parts text name argument ∧
      (∀ name' argument', Parts text name' argument' → name' = name ∧ argument' = argument) ∧
      Decides name argument (parse line)) ∧
    (∀ (verb : FileVerb) (path : String), parse line = .ok (verb.command path) →
      path ≠ "" ∧ Trimmed path.toList ∧ path.toList <:+: line.toList) ∧
    ∀ path : String, path ≠ "" → Trimmed path.toList →
      parse (":save " ++ path) = .ok (.save path) ∧
        parse (":load " ++ path) = .ok (.load path) := by
  refine ⟨parse_of_head?_ne, ?_, fun verb path => path_of_parse, ?_⟩
  · rintro text rfl
    refine ⟨nameOf text, argumentOf text, parts text, fun _ _ h => h.eq, ?_⟩
    rw [parse_colon]
    exact decides_ofParts _ _
  · intro path hne htrimmed
    have hsave : parse (":" ++ ("save" ++ " " ++ path)) = .ok (.save path) :=
      parse_path .save hne htrimmed
    have hload : parse (":" ++ ("load" ++ " " ++ path)) = .ok (.load path) :=
      parse_path .load hne htrimmed
    rw [← String.append_assoc, ← String.append_assoc] at hsave hload
    exact ⟨hsave, hload⟩

theorem lines_follow_grammar_wideBlank :
    parse ":load\u3000 a\tb.umst\u0085" = .ok (.load "a\tb.umst") ∧
    Trimmed "a\tb.umst".toList ∧ parse (":load " ++ "a\tb.umst") = .ok (.load "a\tb.umst") := by
  have hparse : parse ":load\u3000 a\tb.umst\u0085" = .ok (.load "a\tb.umst") := by rfl
  obtain ⟨-, -, hpath, -⟩ := lines_follow_grammar ":load\u3000 a\tb.umst\u0085"
  obtain ⟨hne, htrimmed, -⟩ := hpath .load "a\tb.umst" hparse
  obtain ⟨-, -, -, hagain⟩ := lines_follow_grammar ""
  exact ⟨hparse, htrimmed, (hagain "a\tb.umst" hne htrimmed).2⟩

end Command

end UniversalMachine
