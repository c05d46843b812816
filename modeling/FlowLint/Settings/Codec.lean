import FlowLint.Settings
import FlowLint.Json

/-!
# Settings as JSON values
-/

namespace FlowLint

/-- Settings as a JSON value. -/
def Settings.toJson (s : Settings) : Json :=
  .object [
    ("preset", .ofWord s.preset),
    ("target_word_size", .ofNat s.wordSize.toNat),
    ("wide_char_width", .ofNat s.wcharWidth.toNat),
    ("data_model", .ofOption .ofWord s.model),
    ("ambiguous_format_declarations", .ofWord s.ambiguity),
    ("check_integer_width", .bool s.checkWidths),
    ("enable_format_checks", .bool s.formatChecks),
    ("enable_unreachable_code", .bool s.unreachableCode),
    ("enable_stack_escape", .bool s.stackEscape),
    ("max_diagnostics", .ofOption (fun n => .ofNat n.toNat) s.diagnosticCap),
    ("max_dataflow_iterations", .ofNat s.maxIterations.toNat),
    ("num_threads", .ofOption (fun n => .ofNat n.toNat) s.threads)]

end FlowLint
