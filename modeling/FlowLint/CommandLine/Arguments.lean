import FlowLint.Settings
import FlowLint.Text.Digits

/-!
# Command line arguments

A command line names a command, with options of one value each in front of, between and behind its operands. An option is
given at most once. `-v` and `--verbose` are understood everywhere, any number of times, and say how much is logged. `-h` and
`--help` ask for help wherever they stand, and what is behind them does not count.
-/

namespace FlowLint.CommandLine

/-- An option: its name behind two dashes, its letter behind one if it has one, and what it is for. -/
structure OptionSpec where
  long : String
  short : Option Char
  purpose : String
deriving DecidableEq, Repr, Inhabited

/-- Arguments in order: the options with their values, and the operands, perhaps only those in front of a call for help. -/
structure Arguments where
  options : List (String × String)
  operands : List String
  asksHelp : Bool
deriving DecidableEq, Repr, Inhabited

/-- What an argument is: flags alone, a call for help, an option with its value, or an option whose value follows. -/
inductive Switch where
  | flags
  | help
  | given (option value : String)
  | expecting (option : String)
deriving DecidableEq, Repr, Inhabited

namespace Arguments

/-- Arguments with one more option in front. -/
def withOption (a : Arguments) (option value : String) : Arguments :=
  { a with options := (option, value) :: a.options }

/-- Arguments with one more operand in front. -/
def withOperand (a : Arguments) (operand : String) : Arguments :=
  { a with operands := operand :: a.operands }

end Arguments

/-- A name or a letter and what stands behind the equals sign, if there is one. -/
def splitValue (cs : List Char) : List Char × Option (List Char) :=
  match cs.dropWhile (· != '=') with
  | [] => (cs, none)
  | _ :: value => (cs.takeWhile (· != '='), some value)

/-- What an argument behind two dashes is. -/
def longSwitch? (names : List OptionSpec) (cs : List Char) : Option Switch :=
  let (name, value) := splitValue cs
  let name := String.ofList name
  if name = "verbose" then if value.isNone then some .flags else none
  else if name = "help" then if value.isNone then some .help else none
  else
    (names.find? fun o => o.long == name).map fun o =>
      match value with
      | some value => .given o.long (String.ofList value)
      | none => .expecting o.long

/-- What an argument behind one dash is: letters of flags, of which the last may be that of an option with its value. The
letter that asks for help ends it. -/
def shortSwitch? (names : List OptionSpec) : List Char → Option Switch
  | [] => some .flags
  | 'v' :: cs => shortSwitch? names cs
  | 'h' :: _ => some .help
  | c :: cs =>
    (names.find? fun o => o.short == some c).map fun o =>
      match cs with
      | [] => .expecting o.long
      | '=' :: value => .given o.long (String.ofList value)
      | value => .given o.long (String.ofList value)

/-- The switch that an argument is, `none` inside for a bad one; nothing for an operand or a value. -/
def switchOf? (names : List OptionSpec) (arg : String) : Option (Option Switch) :=
  match arg.toList with
  | '-' :: '-' :: cs => some (longSwitch? names cs)
  | '-' :: c :: cs => some (shortSwitch? names (c :: cs))
  | _ => none

/-- Arguments in order, where `pending` is the option whose value comes next. Behind two dashes alone are operands. -/
def readArguments? (names : List OptionSpec) (pending : Option String) : List String → Option Arguments
  | [] => if pending.isSome then none else some ⟨[], [], false⟩
  | arg :: rest =>
    match pending, switchOf? names arg with
    | some option, none => (readArguments? names none rest).map fun a => a.withOption option arg
    | some _, some _ => none
    | none, none => (readArguments? names none rest).map fun a => a.withOperand arg
    | none, some switch =>
      if arg = "--" then some ⟨[], rest, false⟩
      else do
        match ← switch with
        | .flags => readArguments? names none rest
        | .help => some ⟨[], [], true⟩
        | .given option value => (readArguments? names none rest).map fun a => a.withOption option value
        | .expecting option => readArguments? names (some option) rest

namespace Arguments

/-- Whether no option is given twice. -/
def isOnce (a : Arguments) : Bool := decide (a.options.map (·.1)).Nodup

/-- The value of an option, read by `read`. -/
def value? {α : Type} (a : Arguments) (option : String) (read : String → Option α) : Option (Option α) :=
  match a.options.find? fun o => o.1 == option with
  | none => some none
  | some o => (read o.2).map some

/-- The value of an option that has a default. -/
def valueOr? {α : Type} (a : Arguments) (option : String) (default : α) (read : String → Option α) : Option α :=
  (a.value? option read).map fun value => value.getD default

end Arguments

/-! ## Commands -/

/-- Where the settings come from: a file, a preset and limits. -/
structure SettingsSource where
  file : Option String
  preset : Option String
  diagnosticCap : Option UInt64
  threads : Option UInt64
deriving DecidableEq, Repr, Inhabited

/-- How a report is written. -/
inductive ReportFormat where
  | text
  | json
deriving DecidableEq, Repr, Inhabited

/-- The mildest severity that makes a run fail. -/
inductive FailOn where
  | note
  | warning
  | error
  | never
deriving DecidableEq, Repr, Inhabited

/-- What can be asked for. -/
inductive Verb where
  | analyze
  | config
  | presets
  | help
deriving DecidableEq, Repr, Inhabited

/-- Commands. Help is on one of them, or on all. -/
inductive Command where
  | analyze (snapshot : String) (source : SettingsSource) (format : ReportFormat) (failOn : FailOn)
  | settings (source : SettingsSource)
  | presets
  | help (topic : Option Verb)
deriving DecidableEq, Repr, Inhabited

/-- Why there is no command: there are no arguments, or bad ones. -/
inductive Refusal where
  | nothing
  | misuse
deriving DecidableEq, Repr, Inhabited

instance : Vocabulary ReportFormat where
  members := [.text, .json]
  word
    | .text => "text"
    | .json => "json"
  find_word a := by cases a <;> rfl

instance : Vocabulary FailOn where
  members := [.note, .warning, .error, .never]
  word
    | .note => "note"
    | .warning => "warning"
    | .error => "error"
    | .never => "never"
  find_word a := by cases a <;> rfl

instance : Vocabulary Verb where
  members := [.analyze, .config, .presets, .help]
  word
    | .analyze => "analyze"
    | .config => "config"
    | .presets => "presets"
    | .help => "help"
  find_word a := by cases a <;> rfl

/-- The options that say where the settings come from. -/
def sourceOptions : List OptionSpec := [
  ⟨"config", some 'c', "YAML configuration file (version: 1)"⟩,
  ⟨"preset", some 'p', "Target preset; overrides the file's preset"⟩,
  ⟨"max-diagnostics", none, "Cap on reported diagnostics"⟩,
  ⟨"threads", some 'j', "Worker threads (default: number of CPUs)"⟩]

/-- The words of a vocabulary that a value may be, one of which is taken if none is given. -/
def choices {α : Type} [Vocabulary α] (default : α) : String :=
  "[default: " ++ Vocabulary.word default ++ "] [possible values: " ++
    ", ".intercalate ((Vocabulary.members : List α).map Vocabulary.word) ++ "]"

/-- The options of an analysis. -/
def analyzeOptions : List OptionSpec := sourceOptions ++ [
  ⟨"format", some 'f', "Output format " ++ choices ReportFormat.text⟩,
  ⟨"fail-on", none, "Lowest severity that makes the run fail " ++ choices FailOn.warning⟩]

/-- The options of a command. -/
def Verb.options : Verb → List OptionSpec
  | .analyze => analyzeOptions
  | .config => sourceOptions
  | .presets | .help => []

/-- A path, which is not empty. -/
def path? (s : String) : Option String := if s.isEmpty then none else some s

/-- Where the settings come from. -/
def SettingsSource.ofArguments? (a : Arguments) : Option SettingsSource := do
  let file ← a.value? "config" path?
  let preset ← a.value? "preset" some
  let diagnosticCap ← a.value? "max-diagnostics" Text.word64?
  let threads ← a.value? "threads" Text.word64?
  some { file, preset, diagnosticCap, threads }

namespace Command

/-- How a report is written and when it makes a run fail. -/
def reporting? (a : Arguments) : Option (ReportFormat × FailOn) := do
  let format ← a.valueOr? "format" .text Vocabulary.ofWord?
  let failOn ← a.valueOr? "fail-on" .warning Vocabulary.ofWord?
  some (format, failOn)

/-- Whether arguments may stand in front of a call for help on a command. -/
def precedesHelp (verb : Verb) (a : Arguments) : Bool :=
  a.operands.length ≤ (if verb = .analyze then 1 else 0) && a.operands.all (fun o => (path? o).isSome) &&
    (SettingsSource.ofArguments? a).isSome && (reporting? a).isSome

/-- The command of a verb, with the arguments behind it. -/
def ofVerb? (verb : Verb) (rest : List String) : Option Command := do
  let a ← (readArguments? verb.options none rest).filter Arguments.isOnce
  if a.asksHelp then if precedesHelp verb a then some (.help (some verb)) else none
  else
    match verb, a.operands with
    | .analyze, [snapshot] =>
      let snapshot ← path? snapshot
      let source ← SettingsSource.ofArguments? a
      let (format, failOn) ← reporting? a
      some (.analyze snapshot source format failOn)
    | .config, [] => (SettingsSource.ofArguments? a).map .settings
    | .presets, [] => some .presets
    | _, _ => none

/-- Help on what arguments name: one command, or none of them. -/
def helpOnNames? : List String → Option Command
  | [] => some (.help none)
  | [name] => (Vocabulary.ofWord? name).map fun verb => .help (some verb)
  | _ => none

/-- The command of arguments behind flags. -/
def ofArguments? : List String → Option Command
  | [] => none
  | arg :: rest =>
    match switchOf? [] arg with
    | some (some .flags) => ofArguments? rest
    | some (some .help) => some (.help none)
    | some _ => none
    | none =>
      match (Vocabulary.ofWord? arg : Option Verb) with
      | some .help => helpOnNames? rest
      | some verb => ofVerb? verb rest
      | none => none

/-- The command of a command line. -/
def ofArguments (args : List String) : Except Refusal Command :=
  if args.isEmpty then .error .nothing
  else
    match ofArguments? args with
    | some c => .ok c
    | none => .error .misuse

end Command

end FlowLint.CommandLine
