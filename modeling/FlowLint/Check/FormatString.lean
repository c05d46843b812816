import FlowLint.Check.Subject
import FlowLint.Format.Argument
import FlowLint.Format.Parser
import FlowLint.Format.Registry
import FlowLint.Format.Slot

/-!
# The format string check

Every call of a formatter is checked: the format has to be a constant and well formed, its slots have to get arguments of the
types they read, and there have to be as many arguments as slots. A function that hands on its own format is not checked,
since its callers are.
-/

namespace FlowLint.Check

open FlowLint.Format

/-- What the check needs to know: the formatters, the target, how bad it is to call a formatter whose declarations disagree,
and whether the widths of integers have to fit. -/
structure FormatCheck where
  registry : Registry
  target : Target
  ambiguity : Severity
  widths : Bool

/-- A call in a function, with the place where it is reported. -/
structure Call where
  subject : Subject
  callee : String
  args : List Expr
  span : Span

/-! ## Constants -/

/-- Whether a variable is assigned to. -/
def isAssigned (f : Function) (v : VarId) : Bool :=
  f.statements.any fun s =>
    match s.action with
    | .assign target _ => target.asVar == some v
    | _ => false

/-- What a variable is first initialized with. -/
def initializer? (f : Function) (v : VarId) : Option Expr :=
  f.statements.findSome? fun s =>
    match s.action with
    | .declare w init => if w = v then init else none
    | _ => none

/-- The string that an expression is known to be: a literal, or a constant variable that is never assigned to and is
initialized with such an expression. At most `fuel` variables are followed. -/
def constantText? (f : Function) (fuel : Nat) (e : Expr) : Option String :=
  match e.peel with
  | .string _ value _ => some value
  | .var _ v =>
    match fuel with
    | 0 => none
    | fuel + 1 => do
      let x ← f.variableOf? v
      let init ← if x.isConst && !isAssigned f v then initializer? f v else none
      constantText? f fuel init
  | _ => none

/-- How many variables are followed to a constant. -/
def maxConstants : Nat := 8

namespace Call

/-- A finding at an argument, or at the call if the place of the argument is not known. -/
def findingAt (c : Call) (arg : Expr) (rule : Rule) (severity : Severity) (message : String) (related : List Related) :
    Diagnostic :=
  c.subject.finding rule severity (arg.span.orElse c.span) message related

/-- A note that points to the call. -/
def pointer (c : Call) (message : String) : List Related := [⟨c.subject.placeOrSelf c.span, message⟩]

/-- Declarations of the callee that disagree. -/
def ambiguous (c : Call) (severity : Severity) (declarations : List Location) : Diagnostic :=
  c.subject.finding .ambiguousFormatDeclaration severity c.span
    ("Call to '" ++ c.callee ++ "' not checked: its " ++ toString declarations.length ++ " format declarations disagree")
    (declarations.map fun l => ⟨l, "declared here"⟩)

/-- A format that is not constant. -/
def nonConstant (c : Call) (arg : Expr) : Diagnostic :=
  c.findingAt arg .nonConstantFormat .warning
    ("The format string argument to '" ++ c.callee ++ "' is not a compile-time constant") []

/-- A format that is not well formed. -/
def malformed (c : Call) (arg : Expr) (e : FormatError) : Diagnostic :=
  c.findingAt arg .malformedFormatString .warning
    ("Malformed format string for '" ++ c.callee ++ "': " ++ e.message) []

/-- An argument of a wrong type. -/
def wrongType (c : Call) (arg : Expr) (expected use : String) : Diagnostic :=
  c.findingAt arg .wrongTypeFormatArgument .warning
    ("This argument should be of type '" ++ expected ++ "' but is of type '" ++ arg.type.render ++ "'") (c.pointer use)

/-- An integer of a width that is not the one read. -/
def wrongWidth (c : Call) (arg : Expr) (d : Directive) (read passed : Nat) : Diagnostic :=
  c.findingAt arg .formatArgumentWidth .note
    ("Directive '" ++ d.text ++ "' reads " ++ toString read ++ " bytes but the argument of type '" ++ arg.type.render ++
      "' passes " ++ toString passed) []

/-- Too few or too many arguments, if there are. -/
def wrongNumber? (c : Call) (expected given : Nat) : Option Diagnostic :=
  let message := "Format for '" ++ c.callee ++ "' expects " ++ toString expected ++ " arguments but given " ++ toString given
  if given < expected then
    some (c.subject.finding .wrongNumberFormatArguments .warning c.span message [])
  else if expected < given then
    some (c.subject.finding .wrongNumberFormatArguments .note c.span (message ++ "; the extra ones are ignored") [])
  else none

end Call

namespace FormatCheck

/-- What is wrong with the argument of a slot. -/
def slotFinding? (k : FormatCheck) (c : Call) (slot : Slot) (arg : Expr) : Option Diagnostic :=
  match slot with
  | .width d | .precision d =>
    if admitsStar arg.type then none else some (c.wrongType arg "int" ("read by the '*' of '" ++ d.text ++ "'"))
  | .converted d kind =>
    if kind.admits k.target arg.type then
      if k.widths then (d.widthMismatch k.target arg.type).map fun (read, passed) => c.wrongWidth arg d read passed
      else none
    else some (c.wrongType arg kind.render ("consumed by directive '" ++ d.text ++ "'"))

/-- What is wrong with the arguments that are read, as far as there are any. -/
def argumentFindings (k : FormatCheck) (c : Call) (readings : List (Nat × Slot)) (args : List Expr) : List Diagnostic :=
  readings.filterMap fun (i, slot) => args[i]?.bind (k.slotFinding? c slot)

/-- What is wrong with a call whose format is a known string. -/
def textFindings (k : FormatCheck) (c : Call) (f : Formatter) (formatArg : Expr) (text : String) : List Diagnostic :=
  let format := Format.parse text
  (format.error.map (c.malformed formatArg)).toList ++
    match f.firstArg with
    | none => []
    | some first =>
      let args := c.args.drop first
      k.argumentFindings c (format.readings f.encoding) args ++
        if format.isMalformed then [] else (c.wrongNumber? format.argumentCount args.length).toList

/-- Whether an expression is the format parameter of a function that is a formatter itself. -/
def handsOnFormat (k : FormatCheck) (f : Function) (e : Expr) : Bool :=
  match e.asVar, k.registry.formatter? f.name with
  | some v, some own => f.paramIndex? v == some own.formatIndex
  | _, _ => false

/-- What is wrong with a call of a formatter. -/
def formatterFindings (k : FormatCheck) (c : Call) (f : Formatter) : List Diagnostic :=
  match c.args[f.formatIndex]? with
  | none => []
  | some arg =>
    match constantText? c.subject.function maxConstants arg with
    | some text => k.textFindings c f arg text
    | none => if k.handsOnFormat c.subject.function arg then [] else [c.nonConstant arg]

/-- What is wrong with a call in a statement at a place. -/
def callFindings (k : FormatCheck) (s : Subject) (place : Span) (site : CallSite) : List Diagnostic :=
  match site.callee with
  | none => []
  | some callee =>
    let c : Call := ⟨s, callee, site.args, site.span.orElse place⟩
    match k.registry.lookup callee with
    | none => []
    | some (.ambiguous declarations) => [c.ambiguous k.ambiguity declarations]
    | some (.known f) => k.formatterFindings c f

/-- What is wrong with the calls of a function. -/
def findings (k : FormatCheck) (s : Subject) : List Diagnostic :=
  s.function.statements.flatMap fun st => st.calls.flatMap (k.callFindings s st.span)

end FormatCheck

end FlowLint.Check
