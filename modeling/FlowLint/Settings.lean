import FlowLint.Diagnostic
import FlowLint.Settings.Problem

/-!
# Settings

What a run is to check, for which target, and within which limits. Settings start from a preset and are changed one by one
(`Settings.apply`); only those without a problem are run (`Settings.Valid`).
-/

namespace FlowLint

/-- How calls are reported whose formatter has declarations that disagree. -/
inductive AmbiguityPolicy where
  | skip
  | warn
  | error
deriving DecidableEq, Repr, Inhabited

instance : Vocabulary AmbiguityPolicy where
  members := [.skip, .warn, .error]
  word
    | .skip => "skip"
    | .warn => "warn"
    | .error => "error"
  find_word a := by cases a <;> rfl

namespace AmbiguityPolicy

/-- The severity of the reports. -/
def severity : AmbiguityPolicy → Severity
  | .skip => .note
  | .warn => .warning
  | .error => .error

/-- The policy as it is named in descriptions. -/
def title : AmbiguityPolicy → String
  | .skip => "Skip"
  | .warn => "Warn"
  | .error => "Error"

end AmbiguityPolicy

/-- The settings of a run. The data model follows from the word size unless it is set. Without a cap all diagnostics are
reported, and without a number of threads all cores are used. -/
structure Settings where
  preset : Preset
  wordSize : UInt32
  wcharWidth : UInt32
  model : Option DataModel
  ambiguity : AmbiguityPolicy
  checkWidths : Bool
  formatChecks : Bool
  unreachableCode : Bool
  stackEscape : Bool
  diagnosticCap : Option UInt64
  maxIterations : UInt64
  threads : Option UInt64
deriving DecidableEq, Repr, Inhabited

namespace Settings

/-- The settings for a preset. -/
def ofPreset (p : Preset) : Settings where
  preset := p
  wordSize := p.model.wordSize
  wcharWidth := p.wcharWidth
  model := some p.model
  ambiguity := .skip
  checkWidths := false
  formatChecks := true
  unreachableCode := true
  stackEscape := true
  diagnosticCap := none
  maxIterations := 100
  threads := none

/-- The settings that hold if nothing is set. -/
def standard : Settings := ofPreset .linuxX64

/-- A change of one setting. -/
inductive Change where
  | wordSize (bits : UInt32)
  | wcharWidth (bytes : UInt32)
  | model (m : DataModel)
  | ambiguity (p : AmbiguityPolicy)
  | checkWidths (on : Bool)
  | formatChecks (on : Bool)
  | unreachableCode (on : Bool)
  | stackEscape (on : Bool)
  | diagnosticCap (count : UInt64)
  | maxIterations (count : UInt64)
  | threads (count : UInt64)
deriving DecidableEq, Repr, Inhabited

/-- Settings after a change. A new word size drops a data model of another word size. -/
def apply (s : Settings) : Change → Settings
  | .wordSize bits => { s with wordSize := bits, model := s.model.filter fun m => m.wordSize == bits }
  | .wcharWidth bytes => { s with wcharWidth := bytes }
  | .model m => { s with model := some m }
  | .ambiguity p => { s with ambiguity := p }
  | .checkWidths on => { s with checkWidths := on }
  | .formatChecks on => { s with formatChecks := on }
  | .unreachableCode on => { s with unreachableCode := on }
  | .stackEscape on => { s with stackEscape := on }
  | .diagnosticCap count => { s with diagnosticCap := some count }
  | .maxIterations count => { s with maxIterations := count }
  | .threads count => { s with threads := some count }

/-- Settings after changes, one after the other. -/
def applyAll (s : Settings) (changes : List Change) : Settings := changes.foldl apply s

/-- The data model that holds. -/
def dataModel (s : Settings) : DataModel := s.model.getD (.ofWordSize s.wordSize)

/-- The target of the checks. -/
def target (s : Settings) : Target := ⟨s.dataModel, s.wcharWidth.toNat⟩

/-- Whether a set data model has another word size. -/
def mismatch? (s : Settings) : Option DataModel := s.model.filter fun m => m.wordSize != s.wordSize

/-- The first problem with settings. -/
def problem? (s : Settings) : Option SettingsProblem :=
  if s.wordSize ≠ 32 ∧ s.wordSize ≠ 64 then some (.wordSize s.wordSize)
  else if s.wcharWidth ≠ 2 ∧ s.wcharWidth ≠ 4 then some (.wcharWidth s.wcharWidth)
  else
    s.mismatch?.map (fun m => .modelMismatch m s.wordSize) <|>
    (if s.maxIterations = 0 ∨ s.maxIterations > 10000 then some (.iterations s.maxIterations) else none) <|>
    (s.threads.filter fun n => n == 0 || n > 1024).map .threads <|>
    if s.diagnosticCap = some 0 then some .zeroDiagnostics else none

/-- Settings without a problem. -/
abbrev Valid : Type := { s : Settings // s.problem? = none }

/-- Settings that can be run, or the problem with them. -/
def validate (s : Settings) : Except SettingsProblem Valid :=
  match h : s.problem? with
  | some p => .error p
  | none => .ok ⟨s, h⟩

/-- The settings in one line. -/
def describe (s : Settings) : String :=
  "preset=" ++ Vocabulary.word s.preset ++ " word=" ++ toString s.wordSize ++ " model=" ++ s.dataModel.title ++
    " wchar=" ++ toString s.wcharWidth ++ "B ambiguous=" ++ s.ambiguity.title ++ " checks=[" ++
    (if s.formatChecks then "format " else "") ++ (if s.unreachableCode then "unreachable " else "") ++
    (if s.stackEscape then "escape" else "") ++ "]"

end Settings

end FlowLint
