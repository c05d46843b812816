import FlowLint.CommandLine.Arguments

/-!
# Help

What the program says on its commands: how each is called, and its operands and options with a word on each. The words stand
in a column beside the options unless that is too narrow for some of them: then all stand below.
-/

namespace FlowLint.CommandLine

/-- A text filled up with blanks to a width. -/
def padTo (width : Nat) (s : String) : String := s ++ String.ofList (List.replicate (width - s.length) ' ')

/-- What a command does. -/
def Verb.purpose : Verb → String
  | .analyze => "Analyze a JSON program snapshot"
  | .config => "Print the effective configuration as YAML"
  | .presets => "List target presets"
  | .help => "Print this message or the help of the given subcommand(s)"

/-- The operands of a command, each with a word on it. -/
def Verb.operands : Verb → List (String × String)
  | .analyze => [("<SNAPSHOT>", "Snapshot file (\x7b \"units\": [...] \x7d)")]
  | .help => [("[COMMAND]...", "Print help for the subcommand(s)")]
  | .config | .presets => []

/-- What the program does. -/
def purpose : String := "Format-string, unreachable-code and stack-escape checks for C/C++ snapshots"

/-! ## Columns -/

/-- The width of a page. -/
def pageWidth : Nat := 100

/-- Adds a word to lines of at most `width` characters, the last of which comes first. -/
def addWord (width : Nat) (lines : List String) (word : String) : List String :=
  match lines with
  | [] => [word]
  | line :: above =>
    if line.length + 1 + word.length ≤ width then (line ++ " " ++ word) :: above else word :: line :: above

/-- The words of a text in lines of at most `width` characters. -/
def fill (width : Nat) (text : String) : List String := ((text.splitOn " ").foldl (addWord width) []).reverse

/-- Operands or commands, with the words on them in a column. -/
def twoColumns (rows : List (String × String)) : List String :=
  let widest := rows.foldl (fun n row => max n row.1.length) 0
  rows.map fun (name, text) => "  " ++ padTo (widest + 2) name ++ text

/-- An option as help shows it: its letter, its name with a sign of what follows, and a word on it. -/
structure OptionRow where
  short : Option Char
  form : String
  purpose : String
deriving DecidableEq, Repr, Inhabited

/-- The row of an option that has a value, which is called like it in capitals. -/
def OptionSpec.row (o : OptionSpec) : OptionRow :=
  let value := String.ofList (o.long.toUpper.toList.map fun c => if c = '-' then '_' else c)
  ⟨o.short, "--" ++ o.long ++ " <" ++ value ++ ">", o.purpose⟩

/-- The rows for the options of a command. The one for how much is logged comes second and the one for help last. -/
def optionRows (options : List OptionSpec) : List OptionRow :=
  (options.take 1).map OptionSpec.row ++
    [⟨some 'v', "--verbose...", "Increase log verbosity (-v debug, -vv trace)"⟩] ++
    (options.drop 1).map OptionSpec.row ++
    [⟨some 'h', "--help", "Print help"⟩]

/-- The lines for options. The column for the words on them may start in the first two fifths of a page whatever the words
are, and further right only if it is wide enough for all. -/
def optionLines (rows : List OptionRow) : List String :=
  let widest := rows.foldl (fun n row => max n row.form.length) 0
  let start := widest + 12
  let below := start * 5 > pageWidth * 2 && rows.any fun row => row.purpose.length > pageWidth - start
  rows.flatMap fun row =>
    let letter := match row.short with
      | some c => "-" ++ c.toString ++ ", "
      | none => "    "
    let label := "  " ++ letter ++ row.form
    if below then label :: (fill (pageWidth - 10) row.purpose).map (padTo 10 "" ++ ·)
    else [padTo (widest + 8) label ++ row.purpose]

/-! ## Pages -/

/-- A headed part of a page, in front of which a line is left empty, unless there is nothing in it. -/
def part (head : String) (lines : List String) : List String := if lines.isEmpty then [] else "" :: head :: lines

/-- How a command is called. -/
def Verb.call (verb : Verb) : List String :=
  Vocabulary.word verb :: (if verb = .help then [] else ["[OPTIONS]"]) ++ verb.operands.map (·.1)

/-- The lines of help on a command of a program, or on all. -/
def helpLines (program : String) : Option Verb → List String
  | none =>
    [purpose, "", "Usage: " ++ program ++ " [OPTIONS] <COMMAND>"] ++
      part "Commands:" (twoColumns ((Vocabulary.members : List Verb).map fun v => (Vocabulary.word v, v.purpose))) ++
      part "Options:" (optionLines (optionRows []))
  | some verb =>
    [verb.purpose, "", "Usage: " ++ " ".intercalate (program :: verb.call)] ++
      part "Arguments:" (twoColumns verb.operands) ++
      (if verb = .help then [] else part "Options:" (optionLines (optionRows verb.options)))

/-- Help on a command of a program, or on all. -/
def helpText (program : String) (topic : Option Verb) : String :=
  String.join ((helpLines program topic).map (· ++ "\n"))

end FlowLint.CommandLine
