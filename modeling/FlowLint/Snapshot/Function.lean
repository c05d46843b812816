import FlowLint.Snapshot.Statement
import FlowLint.Target

/-!
# Functions and source units

What a front end extracts from source files: for each file the symbols it declares, with their format attributes, and the
functions it defines, each a list of variables and a list of basic blocks.
-/

namespace FlowLint

/-- Where the storage of a variable is. -/
inductive Storage where
  | automatic
  | static
  | dynamic
deriving DecidableEq, Repr, Inhabited

/-- Parameters and local variables. -/
inductive VarKind where
  | param
  | localVar
deriving DecidableEq, Repr, Inhabited

/-- A variable of a function. -/
structure Variable where
  id : VarId
  name : String
  type : CType
  storage : Storage
  kind : VarKind
  isConst : Bool
  span : Span
deriving DecidableEq, Repr, Inhabited

/-- A basic block: its statements, and the blocks that control reaches from its end. -/
structure Block where
  id : BlockId
  statements : List Statement
  successors : List BlockId
deriving Repr, Inhabited

/-- A function definition. -/
structure Function where
  name : String
  span : Span
  returnType : CType
  variadic : Bool
  vars : List Variable
  blocks : List Block
  entry : BlockId
deriving Repr, Inhabited

/-- Which parameter is a format string, and where the arguments it formats start. A function that takes its arguments as one
list has no such place. -/
structure FormatAttribute where
  formatIndex : UInt64
  firstArgIndex : Option UInt64
deriving DecidableEq, Repr, Inhabited

/-- A declaration of a symbol. -/
structure Declaration where
  params : List CType
  variadic : Bool
  format : Option FormatAttribute
  span : Span
deriving DecidableEq, Repr, Inhabited

/-- A symbol and its declarations. -/
structure DeclaredSymbol where
  name : String
  declarations : List Declaration
deriving DecidableEq, Repr, Inhabited

/-- What is extracted from a source file. A unit may name the target it was compiled for. -/
structure SourceUnit where
  file : String
  target : Option Preset
  symbols : List DeclaredSymbol
  functions : List Function
deriving Repr, Inhabited

/-- What is extracted from a program. -/
structure Snapshot where
  units : List SourceUnit
deriving Repr, Inhabited

/-- Whether a variable is a local one whose storage ends with the call. -/
def Variable.isStackLocal (v : Variable) : Bool :=
  v.kind = .localVar ∧ v.storage = .automatic

namespace Function

/-- The variable of a number. -/
def variableOf? (f : Function) (v : VarId) : Option Variable :=
  f.vars.find? fun x => x.id == v

/-- The block of a number. -/
def blockOf? (f : Function) (b : BlockId) : Option Block :=
  f.blocks.find? fun x => x.id == b

/-- The parameters, in order. -/
def params (f : Function) : List Variable :=
  f.vars.filter fun x => x.kind == .param

/-- The position of a variable among the parameters. -/
def paramIndex? (f : Function) (v : VarId) : Option Nat :=
  f.params.findIdx? fun x => x.id == v

/-- The statements, block by block. -/
def statements (f : Function) : List Statement :=
  f.blocks.flatMap Block.statements

end Function

end FlowLint
