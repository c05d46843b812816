import FlowLint.Analysis
import FlowLint.CommandLine.Help
import FlowLint.Report.Codec
import FlowLint.Settings.File
import FlowLint.Snapshot.File

/-!
# The command line

Runs commands, given the name of the program and the contents of files. An analysis succeeds if it finds nothing as bad as is
asked for.
-/

namespace FlowLint.CommandLine

/-- What a command writes, and whether it found what makes a run fail. -/
structure Output where
  text : String
  failed : Bool
deriving DecidableEq, Repr, Inhabited

/-- Why a command cannot be run. -/
inductive Problem where
  | settings (p : SettingsProblem)
  | snapshot (p : SnapshotProblem)
deriving DecidableEq, Repr, Inhabited

/-- The problem in words. -/
def Problem.message : Problem → String
  | .settings p => p.message
  | .snapshot p => p.message

/-- Settings for the target of a preset, otherwise as before. -/
def retarget (s : Settings) (p : Preset) : Settings :=
  { s.applyAll [.wordSize p.model.wordSize, .wcharWidth p.wcharWidth, .model p.model] with preset := p }

namespace SettingsSource

/-- The settings of a source. A preset takes the place of the target of the file, and limits that of those in the file. -/
def load (source : SettingsSource) (contents : String → Option String) : Except SettingsProblem Settings.Valid := do
  let s ←
    match source.file with
    | some path => (Settings.ofFile (contents path)).map Subtype.val
    | none => .ok Settings.standard
  let s ←
    match source.preset with
    | some name => (SettingsFile.presetOf (some name)).map (retarget s)
    | none => .ok s
  (s.applyAll ((source.diagnosticCap.map .diagnosticCap).toList ++ (source.threads.map .threads).toList)).validate

end SettingsSource

/-- The mildest severity that makes a run fail, if there is one. -/
def FailOn.threshold : FailOn → Option Severity
  | .note => some .note
  | .warning => some .warning
  | .error => some .error
  | .never => none

/-- Whether a report makes a run fail. -/
def FailOn.fails (f : FailOn) (r : Report) : Bool :=
  match f.threshold, r.maxSeverity with
  | some threshold, some worst => (compare threshold worst).isLE
  | _, _ => false

/-- A report in a format. -/
def ReportFormat.write (format : ReportFormat) (r : Report) : String :=
  match format with
  | .text => r.render
  | .json => r.jsonText ++ "\n"

/-- The presets, a line each. -/
def presetLines : String :=
  String.join ((Vocabulary.members : List Preset).map fun p =>
    padTo 14 (Vocabulary.word p) ++ " " ++ (Settings.ofPreset p).describe ++ "\n")

namespace Command

/-- The files that a command reads. -/
def files : Command → List String
  | .analyze snapshot source _ _ => snapshot :: source.file.toList
  | .settings source => source.file.toList
  | .presets | .help _ => []

/-- Runs a command. -/
def run (program : String) (contents : String → Option String) : Command → Except Problem Output
  | .analyze snapshot source format failOn => do
    let settings ← (source.load contents).mapError .settings
    let program ← (Snapshot.ofFile (contents snapshot)).mapError .snapshot
    let report := FlowLint.analyze settings program.units
    return ⟨format.write report, failOn.fails report⟩
  | .settings source => do
    let settings ← (source.load contents).mapError .settings
    return ⟨settings.val.yamlText, false⟩
  | .presets => .ok ⟨presetLines, false⟩
  | .help topic => .ok ⟨helpText program topic, false⟩

end Command

/-- What a program leaves behind: its exit code, its output, and an error message. -/
structure Exit where
  code : UInt8
  output : String
  error : Option String
deriving DecidableEq, Repr, Inhabited

/-- Runs a command to its exit. A run that fails exits with 1, and one that cannot be made with 2. -/
def Command.exit (program : String) (contents : String → Option String) (c : Command) : Exit :=
  match c.run program contents with
  | .ok output => ⟨if output.failed then 1 else 0, output.text, none⟩
  | .error problem => ⟨2, "", some problem.message⟩

end FlowLint.CommandLine
