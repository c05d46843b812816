import FlowLint.Settings
import FlowLint.Yaml.Reader

/-!
# Settings files

A settings file gives a version, a preset and overrides, which are made one after the other in the order in which
`Overrides.changes` lists them. Writing settings gives a file with all overrides that have a value.
-/

namespace FlowLint

/-- What a settings file overrides. -/
structure Overrides where
  wordSize : Option UInt32
  wcharWidth : Option UInt32
  model : Option DataModel
  ambiguity : Option AmbiguityPolicy
  checkWidths : Option Bool
  formatChecks : Option Bool
  unreachableCode : Option Bool
  stackEscape : Option Bool
  diagnosticCap : Option UInt64
  maxIterations : Option UInt64
  threads : Option UInt64
deriving DecidableEq, Repr, Inhabited

/-- A settings file. -/
structure SettingsFile where
  version : Option UInt32
  preset : Option String
  overrides : Option Overrides
deriving DecidableEq, Repr, Inhabited

namespace Overrides

/-- The keys of overrides. -/
def keys : List String := [
  "target_word_size", "wide_char_width", "data_model", "ambiguous_format_declarations", "check_integer_width",
  "format_checks", "unreachable_code", "stack_escape", "max_diagnostics", "max_dataflow_iterations", "num_threads"]

/-- The changes that overrides make, in order. -/
def changes (o : Overrides) : List Settings.Change :=
  (o.wordSize.map .wordSize).toList ++ (o.wcharWidth.map .wcharWidth).toList ++ (o.model.map .model).toList ++
    (o.ambiguity.map .ambiguity).toList ++ (o.checkWidths.map .checkWidths).toList ++
    (o.formatChecks.map .formatChecks).toList ++ (o.unreachableCode.map .unreachableCode).toList ++
    (o.stackEscape.map .stackEscape).toList ++ (o.diagnosticCap.map .diagnosticCap).toList ++
    (o.maxIterations.map .maxIterations).toList ++ (o.threads.map .threads).toList

/-- Overrides from a YAML value. -/
def ofYaml? (v : Yaml) : Option Overrides := do
  let entries ← v.entries? keys
  let wordSize ← Yaml.optional entries "target_word_size" Yaml.uint32?
  let wcharWidth ← Yaml.optional entries "wide_char_width" Yaml.uint32?
  let model ← Yaml.optional entries "data_model" Yaml.word?
  let ambiguity ← Yaml.optional entries "ambiguous_format_declarations" Yaml.word?
  let checkWidths ← Yaml.optional entries "check_integer_width" Yaml.bool?
  let formatChecks ← Yaml.optional entries "format_checks" Yaml.bool?
  let unreachableCode ← Yaml.optional entries "unreachable_code" Yaml.bool?
  let stackEscape ← Yaml.optional entries "stack_escape" Yaml.bool?
  let diagnosticCap ← Yaml.optional entries "max_diagnostics" Yaml.uint64?
  let maxIterations ← Yaml.optional entries "max_dataflow_iterations" Yaml.uint64?
  let threads ← Yaml.optional entries "num_threads" Yaml.uint64?
  some {
    wordSize, wcharWidth, model, ambiguity, checkWidths
    formatChecks, unreachableCode, stackEscape
    diagnosticCap, maxIterations, threads }

/-- Overrides as a YAML value, without those that have no value. -/
def toYaml (o : Overrides) : Yaml :=
  .mapping (
    Yaml.entryIfAny "target_word_size" (fun n => .ofNat n.toNat) o.wordSize ++
    Yaml.entryIfAny "wide_char_width" (fun n => .ofNat n.toNat) o.wcharWidth ++
    Yaml.entryIfAny "data_model" .ofWord o.model ++
    Yaml.entryIfAny "ambiguous_format_declarations" .ofWord o.ambiguity ++
    Yaml.entryIfAny "check_integer_width" .ofBool o.checkWidths ++
    Yaml.entryIfAny "format_checks" .ofBool o.formatChecks ++
    Yaml.entryIfAny "unreachable_code" .ofBool o.unreachableCode ++
    Yaml.entryIfAny "stack_escape" .ofBool o.stackEscape ++
    Yaml.entryIfAny "max_diagnostics" (fun n => .ofNat n.toNat) o.diagnosticCap ++
    Yaml.entryIfAny "max_dataflow_iterations" (fun n => .ofNat n.toNat) o.maxIterations ++
    Yaml.entryIfAny "num_threads" (fun n => .ofNat n.toNat) o.threads)

end Overrides

namespace SettingsFile

/-- A settings file from a YAML value. -/
def ofYaml? (v : Yaml) : Option SettingsFile := do
  let entries ← v.entries? ["version", "preset", "overrides"]
  let version ← Yaml.optional entries "version" Yaml.uint32?
  let preset ← Yaml.optional entries "preset" Yaml.string?
  let overrides ← Yaml.optional entries "overrides" Overrides.ofYaml?
  some { version, preset, overrides }

/-- A settings file as a YAML value. -/
def toYaml (f : SettingsFile) : Yaml :=
  .mapping (
    Yaml.entryIfAny "version" (fun n => .ofNat n.toNat) f.version ++
    Yaml.entryIfAny "preset" .plain f.preset ++
    Yaml.entryIfAny "overrides" Overrides.toYaml f.overrides)

/-- The preset that a file names, or the usual one. -/
def presetOf (name : Option String) : Except SettingsProblem Preset :=
  match name with
  | none => .ok .linuxX64
  | some name =>
    match Preset.named? name with
    | some p => .ok p
    | none => .error (.unknownPreset name Preset.names)

/-- The settings that a file gives, or the first problem: the version, then the preset, then the settings. -/
def settings (f : SettingsFile) : Except SettingsProblem Settings.Valid := do
  match f.version with
  | none => .error .missingVersion
  | some version =>
    if version ≠ 1 then .error (.unsupportedVersion version)
    else do
      let preset ← presetOf f.preset
      ((Settings.ofPreset preset).applyAll ((f.overrides.map Overrides.changes).getD [])).validate

end SettingsFile

namespace Settings

/-- The file that settings are written to. -/
def toFile (s : Settings) : SettingsFile where
  version := some 1
  preset := some (Vocabulary.word s.preset)
  overrides := some {
    wordSize := some s.wordSize
    wcharWidth := some s.wcharWidth
    model := s.model
    ambiguity := some s.ambiguity
    checkWidths := some s.checkWidths
    formatChecks := some s.formatChecks
    unreachableCode := some s.unreachableCode
    stackEscape := some s.stackEscape
    diagnosticCap := s.diagnosticCap
    maxIterations := some s.maxIterations
    threads := s.threads }

/-- Settings as YAML text. -/
def yamlText (s : Settings) : String :=
  match s.toFile.toYaml with
  | .mapping entries => String.ofList (Yaml.entriesText 0 entries)
  | .scalar _ _ text => text

/-- The settings of a YAML text. -/
def ofYamlText (text : String) : Except SettingsProblem Valid :=
  match (Yaml.read? text).bind SettingsFile.ofYaml? with
  | some f => f.settings
  | none => .error .unreadableFile

/-- The settings of a file, given its contents if it is there. -/
def ofFile (contents : Option String) : Except SettingsProblem Valid :=
  match contents with
  | some text => ofYamlText text
  | none => .error .missingFile

end Settings

end FlowLint
