import FlowLint.Target
import FlowLint.Text.EditDistance

/-!
# What can be wrong with settings

Values out of range, a data model that does not fit the word size, and settings files that cannot be used.
-/

namespace FlowLint

/-- Why settings are refused. -/
inductive SettingsProblem where
  | wordSize (bits : UInt32)
  | wcharWidth (bytes : UInt32)
  | modelMismatch (model : DataModel) (bits : UInt32)
  | iterations (count : UInt64)
  | threads (count : UInt64)
  | zeroDiagnostics
  | missingVersion
  | unsupportedVersion (found : UInt32)
  | unknownPreset (name : String) (valid : List String)
  | missingFile
  | unreadableFile
deriving DecidableEq, Repr, Inhabited

namespace SettingsProblem

/-- A value that is out of range. -/
def outOfRange (field value allowed hint : String) : String :=
  "Invalid value for field '" ++ field ++ "': " ++ value ++ " not in " ++ allowed ++ ". " ++ hint

/-- A name that no preset has. -/
def noSuchPreset (name : String) (valid : List String) : String :=
  "Unknown preset '" ++ name ++ "'. Valid presets: " ++ String.intercalate ", " valid

/-- The question whether the nearest name was meant, if it is at most three edits away. -/
def suggestion (name : String) (valid : List String) : String :=
  match Text.nearest? name valid with
  | some near => if Text.editDistance name near ≤ 3 then "Did you mean '" ++ near ++ "'?" else ""
  | none => ""

/-- The problem in words. -/
def message : SettingsProblem → String
  | .wordSize bits =>
    outOfRange "target_word_size" (toString bits) "\x7b32, 64\x7d" "Only 32- and 64-bit targets are modelled"
  | .wcharWidth bytes =>
    outOfRange "wide_char_width" (toString bytes) "\x7b2, 4\x7d"
      "wchar_t is 2 bytes on Windows and 4 bytes on most Unix targets"
  | .modelMismatch model bits =>
    "Validation error: data_model " ++ model.title ++ " implies a " ++ toString model.wordSize ++
      "-bit target but target_word_size is " ++ toString bits
  | .iterations count =>
    outOfRange "max_dataflow_iterations" (toString count) "1..=10000"
      "The escape dataflow usually converges in a handful of iterations"
  | .threads count => outOfRange "num_threads" (toString count) "1..=1024" "Leave unset to use all cores"
  | .zeroDiagnostics => outOfRange "max_diagnostics" "0" "1.." "Leave unset for no cap"
  | .missingVersion =>
    "Missing 'version' field in configuration file. Add 'version: 1' to the top of your YAML file."
  | .unsupportedVersion found => "Unsupported configuration version " ++ toString found ++ ". Supported versions: 1"
  | .unknownPreset name valid => noSuchPreset name valid ++ ". " ++ suggestion name valid
  | .missingFile => "IO error: the file cannot be read"
  | .unreadableFile => "YAML parsing error: this is not a settings file"

end SettingsProblem

end FlowLint
