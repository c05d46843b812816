import FlowLint.CType.Codec
import FlowLint.Source.Codec
import FlowLint.Snapshot.Function

/-!
# Snapshots as JSON values

Alternatives are objects that name which one they are: `expr` for an expression, `stmt` for a statement. Spans, lists and
flags may be left out and are then zero, empty and false; fields that may be absent may also be `null`. What a statement
does is read as a whole, and so are all expressions and their types.
-/

namespace FlowLint

instance : Vocabulary UnaryOp where
  members := [.neg, .not, .bitNot, .preInc, .preDec, .postInc, .postDec]
  word
    | .neg => "neg"
    | .not => "not"
    | .bitNot => "bit_not"
    | .preInc => "pre_inc"
    | .preDec => "pre_dec"
    | .postInc => "post_inc"
    | .postDec => "post_dec"
  find_word a := by cases a <;> rfl

instance : Vocabulary BinaryOp where
  members := [.add, .sub, .mul, .div, .rem, .bitAnd, .bitOr, .bitXor, .shl, .shr, .eq, .ne, .lt, .le, .gt, .ge, .and, .or,
    .comma]
  word
    | .add => "add"
    | .sub => "sub"
    | .mul => "mul"
    | .div => "div"
    | .rem => "rem"
    | .bitAnd => "bit_and"
    | .bitOr => "bit_or"
    | .bitXor => "bit_xor"
    | .shl => "shl"
    | .shr => "shr"
    | .eq => "eq"
    | .ne => "ne"
    | .lt => "lt"
    | .le => "le"
    | .gt => "gt"
    | .ge => "ge"
    | .and => "and"
    | .or => "or"
    | .comma => "comma"
  find_word a := by cases a <;> rfl

instance : Vocabulary LabelKind where
  members := [.user, .case, .default]
  word
    | .user => "user"
    | .case => "case"
    | .default => "default"
  find_word a := by cases a <;> rfl

instance : Vocabulary JumpKind where
  members := [.goto, .break, .continue, .return]
  word := JumpKind.keyword
  find_word a := by cases a <;> rfl

instance : Vocabulary Storage where
  members := [.automatic, .static, .dynamic]
  word
    | .automatic => "automatic"
    | .static => "static"
    | .dynamic => "dynamic"
  find_word a := by cases a <;> rfl

instance : Vocabulary VarKind where
  members := [.param, .localVar]
  word
    | .param => "param"
    | .localVar => "local"
  find_word a := by cases a <;> rfl

/-- A 32-bit word as a JSON value. -/
def Json.ofUInt32 (n : UInt32) : Json := .ofNat n.toNat

/-- A 64-bit word as a JSON value. -/
def Json.ofUInt64 (n : UInt64) : Json := .ofNat n.toNat

/-- A span that is zero if it is left out. -/
def Json.span (fields : List (String × Json)) : Option Span :=
  Json.defaulted fields "span" Span.zero Span.ofJson?

/-- A list that is empty if it is left out. -/
def Json.items {α : Type} (fields : List (String × Json)) (key : String) (read : Json → Option α) : Option (List α) :=
  Json.defaulted fields key [] (Json.list? read)

/-- A flag that is false if it is left out. -/
def Json.flag (fields : List (String × Json)) (key : String) : Option Bool :=
  Json.defaulted fields key false Json.bool?

/-! ## Expressions -/

namespace Expr

/-- The object of an expression. -/
def withNote (n : Note) (alternative : String) (parts : List (String × Json)) : Json :=
  .object [
    ("kind", .object (("expr", .string alternative) :: parts)),
    ("ty", n.type.toJson),
    ("span", n.span.toJson)]

mutual

/-- An expression as a JSON value. -/
def toJson : Expr → Json
  | .var n v => withNote n "var" [("var", .ofUInt32 v)]
  | .global n name => withNote n "global" [("name", .string name)]
  | .string n value encoding =>
    withNote n "string_literal" [("value", .string value), ("encoding", .ofWord encoding)]
  | .int n value => withNote n "int_literal" [("value", .int value.toInt)]
  | .float n value => withNote n "float_literal" [("value", .float value)]
  | .nullptr n => withNote n "null_ptr" []
  | .addressOf n a => withNote n "address_of" [("operand", a.toJson)]
  | .deref n a => withNote n "deref" [("operand", a.toJson)]
  | .member n a field arrow =>
    withNote n "member" [("base", a.toJson), ("field", .string field), ("arrow", .bool arrow)]
  | .index n a b => withNote n "index" [("base", a.toJson), ("index", b.toJson)]
  | .unary n op a => withNote n "unary" [("op", .ofWord op), ("operand", a.toJson)]
  | .binary n op a b => withNote n "binary" [("op", .ofWord op), ("lhs", a.toJson), ("rhs", b.toJson)]
  | .cast n a => withNote n "cast" [("operand", a.toJson)]
  | .conditional n a b c =>
    withNote n "conditional" [("cond", a.toJson), ("then_expr", b.toJson), ("else_expr", c.toJson)]
  | .call n callee args site =>
    withNote n "call" [("call", .object [
      ("callee", .ofOption .string callee), ("args", .array (toJsonAll args)), ("span", site.toJson)])]
  | .new n => withNote n "new" []
  | .other n => withNote n "other" []

/-- Expressions as JSON values. -/
def toJsonAll : List Expr → List Json
  | [] => []
  | e :: es => e.toJson :: toJsonAll es

end

/-- The alternatives, in the order of their numbers. -/
def alternatives : List String := [
  "var", "global", "string_literal", "int_literal", "float_literal", "null_ptr", "address_of", "deref", "member", "index",
  "unary", "binary", "cast", "conditional", "call", "new", "other"]

/-- The alternative that a value names, or counts from zero. -/
def alternative? : Json → Option String
  | .string name => some name
  | .int n => if 0 ≤ n then alternatives[n.toNat]? else none
  | _ => none

/-- The alternative of an expression, whose operands are read by `operand`. -/
def readAlternative (operand : Json → Option Expr) (note : Note) (alternative : String) (parts : List (String × Json)) :
    Option Expr := do
  match alternative with
  | "var" => some (.var note (← Json.required parts "var" Json.uint32?))
  | "global" => some (.global note (← Json.required parts "name" Json.string?))
  | "string_literal" =>
    let value ← Json.required parts "value" Json.string?
    let encoding ← Json.defaulted parts "encoding" Encoding.narrow (Json.wordWithin? true)
    some (.string note value encoding)
  | "int_literal" => some (.int note (← Json.required parts "value" Json.int64?))
  | "float_literal" => some (.float note (← Json.required parts "value" Json.binary64?))
  | "null_ptr" => some (.nullptr note)
  | "address_of" => some (.addressOf note (← Json.required parts "operand" operand))
  | "deref" => some (.deref note (← Json.required parts "operand" operand))
  | "member" =>
    let base ← Json.required parts "base" operand
    let field ← Json.required parts "field" Json.string?
    let arrow ← Json.flag parts "arrow"
    some (.member note base field arrow)
  | "index" =>
    let base ← Json.required parts "base" operand
    let index ← Json.required parts "index" operand
    some (.index note base index)
  | "unary" =>
    let op ← Json.required parts "op" (Json.wordWithin? true)
    let a ← Json.required parts "operand" operand
    some (.unary note op a)
  | "binary" =>
    let op ← Json.required parts "op" (Json.wordWithin? true)
    let lhs ← Json.required parts "lhs" operand
    let rhs ← Json.required parts "rhs" operand
    some (.binary note op lhs rhs)
  | "cast" => some (.cast note (← Json.required parts "operand" operand))
  | "conditional" =>
    let cond ← Json.required parts "cond" operand
    let yes ← Json.required parts "then_expr" operand
    let no ← Json.required parts "else_expr" operand
    some (.conditional note cond yes no)
  | "call" =>
    let site ← Json.required parts "call" Json.fields?
    let callee ← Json.optional site "callee" Json.string?
    let args ← Json.items site "args" operand
    let span ← Json.span site
    some (.call note callee args span)
  | "new" => some (.new note)
  | "other" => some (.other note)
  | _ => none

/-- An expression from a JSON value in which expressions are nested fewer than `fuel` deep. -/
def read (fuel : Nat) (v : Json) : Option Expr :=
  match fuel with
  | 0 => none
  | fuel + 1 => do
    let fields ← v.fields?
    let parts ← Json.required fields "kind" Json.fields?
    let type ← Json.required fields "ty" CType.ofWhole?
    let span ← Json.span fields
    let alternative ← Json.required parts "expr" alternative?
    readAlternative (read fuel) { type, span } alternative parts

/-- An expression from a JSON value. -/
def ofJson? (v : Json) : Option Expr := read (v.depth + 1) v

end Expr

/-! ## Statements -/

/-- The fields of a call. -/
def CallSite.toFields (c : CallSite) : List (String × Json) :=
  [("callee", .ofOption .string c.callee), ("args", .ofList Expr.toJson c.args), ("span", c.span.toJson)]

/-- A call from its fields. -/
def CallSite.ofFields? (fields : List (String × Json)) : Option CallSite := do
  let callee ← Json.optional fields "callee" Json.string?
  let args ← Json.items fields "args" Expr.ofJson?
  let span ← Json.span fields
  some { callee, args, span }

/-- The fields of a jump. -/
def Jump.toFields (j : Jump) : List (String × Json) :=
  [("kind", .ofWord j.kind), ("target", .ofOption .ofUInt32 j.target), ("label", .ofOption .string j.label),
    ("value", .ofOption Expr.toJson j.value)]

/-- A jump from its fields. -/
def Jump.ofFields? (fields : List (String × Json)) : Option Jump := do
  let kind ← Json.required fields "kind" (Json.wordWithin? true)
  let target ← Json.optional fields "target" Json.uint32?
  let label ← Json.optional fields "label" Json.string?
  let value ← Json.optional fields "value" Expr.ofJson?
  some { kind, target, label, value }

/-- The fields of what a statement does. -/
def Action.toFields : Action → List (String × Json)
  | .call site => ("stmt", .string "call") :: site.toFields
  | .jump j => ("stmt", .string "jump") :: j.toFields
  | .assign target value => [("stmt", .string "assignment"), ("target", target.toJson), ("value", value.toJson)]
  | .declare v init => [("stmt", .string "declaration"), ("var", .ofUInt32 v), ("init", .ofOption Expr.toJson init)]
  | .label name kind => [("stmt", .string "label"), ("name", .string name), ("label", .ofWord kind)]
  | .eval e => [("stmt", .string "expr"), ("expr", e.toJson)]
  | .empty => [("stmt", .string "empty")]
  | .other => [("stmt", .string "other")]

/-- What a statement does, from its fields. -/
def Action.ofFields? (fields : List (String × Json)) : Option Action := do
  let alternative ← Json.required fields "stmt" Json.string?
  match alternative with
  | "call" => some (.call (← CallSite.ofFields? fields))
  | "jump" => some (.jump (← Jump.ofFields? fields))
  | "assignment" =>
    let target ← Json.required fields "target" Expr.ofJson?
    let value ← Json.required fields "value" Expr.ofJson?
    some (.assign target value)
  | "declaration" =>
    let v ← Json.required fields "var" Json.uint32?
    let init ← Json.optional fields "init" Expr.ofJson?
    some (.declare v init)
  | "label" =>
    let name ← Json.required fields "name" Json.string?
    let kind ← Json.required fields "label" (Json.wordWithin? true)
    some (.label name kind)
  | "expr" => some (.eval (← Json.required fields "expr" Expr.ofJson?))
  | "empty" => some .empty
  | "other" => some .other
  | _ => none

/-- A statement as a JSON value. -/
def Statement.toJson (s : Statement) : Json :=
  .object [("kind", .object s.action.toFields), ("span", s.span.toJson)]

/-- A statement from a JSON value. What it does has to be readable at every depth, also in unknown fields. -/
def Statement.ofJson? (v : Json) : Option Statement := do
  let fields ← v.fields?
  let parts ← Json.required fields "kind" Json.fields?
  let action ← if Json.readableFields parts then Action.ofFields? parts else none
  let span ← Json.span fields
  some { action, span }

/-! ## Functions -/

/-- A block as a JSON value. -/
def Block.toJson (b : Block) : Json :=
  .object [
    ("id", .ofUInt32 b.id),
    ("statements", .ofList Statement.toJson b.statements),
    ("successors", .ofList .ofUInt32 b.successors)]

/-- A block from a JSON value. -/
def Block.ofJson? (v : Json) : Option Block := do
  let fields ← v.fields?
  let id ← Json.required fields "id" Json.uint32?
  let statements ← Json.items fields "statements" Statement.ofJson?
  let successors ← Json.items fields "successors" Json.uint32?
  some { id, statements, successors }

/-- A variable as a JSON value. -/
def Variable.toJson (x : Variable) : Json :=
  .object [
    ("id", .ofUInt32 x.id),
    ("name", .string x.name),
    ("ty", x.type.toJson),
    ("storage", .ofWord x.storage),
    ("kind", .ofWord x.kind),
    ("is_const", .bool x.isConst),
    ("span", x.span.toJson)]

/-- A variable from a JSON value. -/
def Variable.ofJson? (v : Json) : Option Variable := do
  let fields ← v.fields?
  let id ← Json.required fields "id" Json.uint32?
  let name ← Json.required fields "name" Json.string?
  let type ← Json.required fields "ty" CType.ofJson?
  let storage ← Json.required fields "storage" Json.word?
  let kind ← Json.required fields "kind" Json.word?
  let isConst ← Json.flag fields "is_const"
  let span ← Json.span fields
  some { id, name, type, storage, kind, isConst, span }

/-- A function as a JSON value. -/
def Function.toJson (f : Function) : Json :=
  .object [
    ("name", .string f.name),
    ("span", f.span.toJson),
    ("return_type", f.returnType.toJson),
    ("variadic", .bool f.variadic),
    ("variables", .ofList Variable.toJson f.vars),
    ("blocks", .ofList Block.toJson f.blocks),
    ("entry", .ofUInt32 f.entry)]

/-- A function from a JSON value. -/
def Function.ofJson? (v : Json) : Option Function := do
  let fields ← v.fields?
  let name ← Json.required fields "name" Json.string?
  let span ← Json.span fields
  let returnType ← Json.required fields "return_type" CType.ofJson?
  let variadic ← Json.flag fields "variadic"
  let vars ← Json.items fields "variables" Variable.ofJson?
  let blocks ← Json.required fields "blocks" (Json.list? Block.ofJson?)
  let entry ← Json.required fields "entry" Json.uint32?
  some { name, span, returnType, variadic, vars, blocks, entry }

/-! ## Units -/

/-- A format attribute as a JSON value. -/
def FormatAttribute.toJson (a : FormatAttribute) : Json :=
  .object [("format_index", .ofUInt64 a.formatIndex), ("first_arg_index", .ofOption .ofUInt64 a.firstArgIndex)]

/-- A format attribute from a JSON value. -/
def FormatAttribute.ofJson? (v : Json) : Option FormatAttribute := do
  let fields ← v.fields?
  let formatIndex ← Json.required fields "format_index" Json.uint64?
  let firstArgIndex ← Json.optional fields "first_arg_index" Json.uint64?
  some { formatIndex, firstArgIndex }

/-- A declaration as a JSON value. -/
def Declaration.toJson (d : Declaration) : Json :=
  .object [
    ("params", .ofList CType.toJson d.params),
    ("variadic", .bool d.variadic),
    ("format", .ofOption FormatAttribute.toJson d.format),
    ("span", d.span.toJson)]

/-- A declaration from a JSON value. -/
def Declaration.ofJson? (v : Json) : Option Declaration := do
  let fields ← v.fields?
  let params ← Json.items fields "params" CType.ofJson?
  let variadic ← Json.flag fields "variadic"
  let format ← Json.optional fields "format" FormatAttribute.ofJson?
  let span ← Json.span fields
  some { params, variadic, format, span }

/-- A symbol as a JSON value. -/
def DeclaredSymbol.toJson (s : DeclaredSymbol) : Json :=
  .object [("name", .string s.name), ("declarations", .ofList Declaration.toJson s.declarations)]

/-- A symbol from a JSON value. -/
def DeclaredSymbol.ofJson? (v : Json) : Option DeclaredSymbol := do
  let fields ← v.fields?
  let name ← Json.required fields "name" Json.string?
  let declarations ← Json.items fields "declarations" Declaration.ofJson?
  some { name, declarations }

/-- A unit as a JSON value, without a target if it names none. -/
def SourceUnit.toJson (u : SourceUnit) : Json :=
  .object (
    [("file", .string u.file)] ++
    (u.target.map fun p => ("target", .ofWord p)).toList ++
    [("symbols", .ofList DeclaredSymbol.toJson u.symbols), ("functions", .ofList Function.toJson u.functions)])

/-- A unit from a JSON value. -/
def SourceUnit.ofJson? (v : Json) : Option SourceUnit := do
  let fields ← v.fields?
  let file ← Json.required fields "file" Json.string?
  let target ← Json.optional fields "target" Json.word?
  let symbols ← Json.items fields "symbols" DeclaredSymbol.ofJson?
  let functions ← Json.items fields "functions" Function.ofJson?
  some { file, target, symbols, functions }

/-- A snapshot as a JSON value. -/
def Snapshot.toJson (s : Snapshot) : Json :=
  .object [("units", .ofList SourceUnit.toJson s.units)]

/-- A snapshot from a JSON value. -/
def Snapshot.ofJson? (v : Json) : Option Snapshot := do
  let fields ← v.fields?
  let units ← Json.required fields "units" (Json.list? SourceUnit.ofJson?)
  some { units }

end FlowLint
