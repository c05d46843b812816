import FlowLint.Ordered.Map
import FlowLint.Snapshot.Function

/-!
# Functions that take format strings

A function is known to take a format string for one of three reasons: its declarations, over all units, carry one `format`
attribute between them; it is one of the standard functions; or it is variadic and hands a parameter of its own on as the
format of a function known for one of the first two reasons. Declarations that carry different attributes make a name
ambiguous. A registry is built in this order: declarations are put together name by name, the names that they make known get
entries, the standard functions get those that are left, and wrappers are looked for among the other functions with what is
known by then, so that a function that wraps a wrapper is none.
-/

namespace FlowLint.Format

/-- Why a function is known to take a format string. -/
inductive FormatterSource where
  | attribute
  | builtin
  | wrapper (wraps : String)
deriving DecidableEq, Repr, Inhabited

/-- A function that takes a format string: the position of the format, that of the first argument to be formatted unless the
arguments come as one list, and the encoding that the format is written in. -/
structure Formatter where
  name : String
  formatIndex : Nat
  firstArg : Option Nat
  encoding : Encoding
  source : FormatterSource
deriving DecidableEq, Repr, Inhabited

/-- What is known of a name: one way to take a format string, or the places of declarations that disagree. -/
inductive Entry where
  | known (f : Formatter)
  | ambiguous (declarations : List Location)
deriving DecidableEq, Repr, Inhabited

/-- The formatter of an entry that is not ambiguous. -/
def Entry.formatter? : Entry → Option Formatter
  | .known f => some f
  | .ambiguous _ => none

/-- A standard function. -/
def standard (name : String) (formatIndex : Nat) (firstArg : Option Nat) (encoding : Encoding) : Formatter :=
  ⟨name, formatIndex, firstArg, encoding, .builtin⟩

/-- The standard functions. -/
def builtins : List Formatter := [
  standard "printf" 0 (some 1) .narrow,
  standard "fprintf" 1 (some 2) .narrow,
  standard "sprintf" 1 (some 2) .narrow,
  standard "snprintf" 2 (some 3) .narrow,
  standard "dprintf" 1 (some 2) .narrow,
  standard "syslog" 1 (some 2) .narrow,
  standard "wprintf" 0 (some 1) .wide,
  standard "fwprintf" 1 (some 2) .wide,
  standard "swprintf" 2 (some 3) .wide,
  standard "vprintf" 0 none .narrow,
  standard "vfprintf" 1 none .narrow,
  standard "vsprintf" 1 none .narrow,
  standard "vsnprintf" 2 none .narrow,
  standard "vwprintf" 0 none .wide,
  standard "vfwprintf" 1 none .wide,
  standard "vswprintf" 2 none .wide]

/-- The standard function of a name. -/
def builtin? (name : String) : Option Formatter := builtins.find? fun f => f.name == name

/-- The encoding of text that a value of a type points to. -/
def pointedEncoding? (c : CType) : Option Encoding :=
  match c.pointee with
  | some (.char k) => some k.encoding
  | _ => none

/-! ## Declared formatters -/

/-- The declarations of each name, each with its file. -/
abbrev Declarations : Type := OrdMap String (List (String × Declaration))

/-- Declarations and those of one more symbol in a file. -/
def Declarations.addSymbol (file : String) (table : Declarations) (s : DeclaredSymbol) : Declarations :=
  table.alter s.name fun ds => ds.getD [] ++ s.declarations.map fun d => (file, d)

/-- The declarations in units, put together by name in the order of the units. -/
def Declarations.ofUnits (units : List SourceUnit) : Declarations :=
  units.foldl (fun table u => u.symbols.foldl (addSymbol u.file) table) .empty

/-- The different attributes among declarations. -/
def attributesOf (declarations : List (String × Declaration)) : List FormatAttribute :=
  (declarations.filterMap fun d => d.2.format).eraseDups

/-- The encoding of the parameter at a position in the first declaration that gives one. -/
def declaredEncoding? (declarations : List (String × Declaration)) (index : Nat) : Option Encoding :=
  declarations.findSome? fun d => (d.2.params[index]?).bind pointedEncoding?

/-- The entry of a name by its declarations. -/
def Entry.ofDeclarations? (name : String) (declarations : List (String × Declaration)) : Option Entry :=
  match attributesOf declarations with
  | [] => (builtin? name).map fun f =>
    .known { f with encoding := (declaredEncoding? declarations f.formatIndex).getD f.encoding }
  | [a] =>
    let attributed := declarations.filter fun d => d.2.format == some a
    let encoding := declaredEncoding? attributed a.formatIndex.toNat <|> (builtin? name).map Formatter.encoding
    some (.known {
      name
      formatIndex := a.formatIndex.toNat
      firstArg := a.firstArgIndex.map UInt64.toNat
      encoding := encoding.getD .narrow
      source := .attribute })
  | _ => some (.ambiguous ((declarations.filter fun d => d.2.format.isSome).map fun d => ⟨d.1, d.2.span⟩))

/-- Entries and that of one more declared name, if its declarations make one. -/
def addDeclared (entries : OrdMap String Entry) (d : String × List (String × Declaration)) : OrdMap String Entry :=
  ((Entry.ofDeclarations? d.1 d.2).map (entries.insert d.1)).getD entries

/-- Entries and that of a standard function, if it has none yet. -/
def addBuiltin (entries : OrdMap String Entry) (f : Formatter) : OrdMap String Entry :=
  entries.alter f.name fun e => e.getD (.known f)

/-- The entries of the declared and of the standard functions. -/
def knownEntries (units : List SourceUnit) : OrdMap String Entry :=
  builtins.foldl addBuiltin ((Declarations.ofUnits units).entries.foldl addDeclared .empty)

/-! ## Wrappers -/

/-- A call of a formatter with a parameter of the calling function as its format. -/
structure Forward where
  inner : Formatter
  param : VarId
  index : Nat
deriving DecidableEq, Repr, Inhabited

/-- The way a call hands on a parameter of a function as a format. -/
def forward? (known : String → Option Entry) (f : Function) (call : CallSite) : Option Forward := do
  let inner ← (← known (← call.callee)).formatter?
  let param ← (← call.args[inner.formatIndex]?).asVar
  let index ← f.paramIndex? param
  some { inner, param, index }

/-- The formatter that a function is because of the first call in it that hands on a parameter. -/
def wrapper? (known : String → Option Entry) (f : Function) : Option Formatter :=
  if f.variadic then
    ((f.statements.flatMap Statement.calls).findSome? (forward? known f)).map fun forward => {
      name := f.name
      formatIndex := forward.index
      firstArg := some f.params.length
      encoding := ((f.variableOf? forward.param).bind fun x => pointedEncoding? x.type).getD forward.inner.encoding
      source := .wrapper forward.inner.name }
  else none

/-- Wrappers and one more function, if it is one and has neither an entry nor a wrapper of its name in front of it. -/
def addWrapper (known : OrdMap String Entry) (wrappers : OrdMap String Formatter) (f : Function) : OrdMap String Formatter :=
  if (known.get? f.name).isSome || (wrappers.get? f.name).isSome then wrappers
  else ((wrapper? known.get? f).map (wrappers.insert f.name)).getD wrappers

/-- The wrappers among the functions of units. -/
def wrappersIn (units : List SourceUnit) (known : OrdMap String Entry) : OrdMap String Formatter :=
  (units.flatMap SourceUnit.functions).foldl (addWrapper known) .empty

/-! ## Registries -/

/-- The entries of all names that have one. -/
structure Registry where
  entries : OrdMap String Entry

namespace Registry

/-- The registry of a program. -/
def ofUnits (units : List SourceUnit) : Registry :=
  let known := knownEntries units
  ⟨(wrappersIn units known).entries.foldl (fun entries w => entries.insert w.1 (.known w.2)) known⟩

/-- The entry of a name. -/
def lookup (r : Registry) (name : String) : Option Entry := r.entries.get? name

/-- The formatter of a name that is not ambiguous. -/
def formatter? (r : Registry) (name : String) : Option Formatter := (r.lookup name).bind Entry.formatter?

/-- The number of entries. -/
def size (r : Registry) : Nat := r.entries.entries.length

end Registry

end FlowLint.Format
