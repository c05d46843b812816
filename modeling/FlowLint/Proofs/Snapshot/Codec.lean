import FlowLint.Proofs.CType.Codec
import FlowLint.Snapshot.Codec

/-!
# Snapshots that are read back

A snapshot is read back from the value that is written for it (`Snapshot.toJson_readsBack`). Expressions are read back by induction
on how deep the reader goes: each alternative gives its fields under keys of its own, none of which is the key that names the
alternative, so that each field is found again. What a statement does is read only if it is readable at every depth, and all that
is written is.
-/

namespace FlowLint

open Json

/-! ## Places -/

namespace Span

-- Fields are read one after the other, each by an equation of its own: `Option.bind_some` holds by computation, and the kernel
-- would compute what the fields behind are read as.
@[simp] theorem ofJson?_toJson (s : Span) : ofJson? s.toJson = some s := by
  simp [ofJson?, toJson, Option.bind_eq_some_iff, -Option.bind_some]

@[simp] theorem readable_toJson (s : Span) : s.toJson.readable = true := rfl

end Span

/-! ## Expressions -/

namespace Expr

/-- The reader of expressions finds the alternative and its fields, if none of them is named like the alternative. -/
theorem read_withNote (fuel : Nat) (n : Note) (alternative : String) {parts : List (String × Json)}
    (h : valuesOf "expr" parts = []) :
    read (fuel + 1) (withNote n alternative parts) =
      readAlternative (read fuel) n alternative (("expr", .string alternative) :: parts) := by
  simp [read, withNote, Json.span, h, alternative?]

theorem depthFields_lt {n : Note} {alternative : String} {parts : List (String × Json)} {fuel : Nat}
    (h : (withNote n alternative parts).depth < fuel + 1) : depthFields parts < fuel := by
  simp only [withNote, depth, depthFields] at h
  omega

theorem toJson_ne_null (e : Expr) : e.toJson ≠ .null := by
  cases e <;> simp [toJson, withNote]

theorem toJsonAll_eq (es : List Expr) : toJsonAll es = es.map toJson := by
  induction es with
  | nil => rfl
  | cons e es ih => simp [toJsonAll, ih]

theorem depth_le_of_mem {es : List Expr} {e : Expr} (h : e ∈ es) : e.toJson.depth ≤ depthItems (toJsonAll es) := by
  induction es with
  | nil => exact absurd h List.not_mem_nil
  | cons e' es ih =>
    simp only [toJsonAll, depthItems]
    rcases List.mem_cons.1 h with rfl | h
    · omega
    · have := ih h
      omega

/-- A written expression is read back, if the reader goes as deep as the expression is nested. -/
theorem read_toJson (e : Expr) {fuel : Nat} (h : e.toJson.depth < fuel) : read fuel e.toJson = some e := by
  induction fuel generalizing e with
  | zero => exact absurd h (Nat.not_lt_zero _)
  | succ fuel ih =>
    cases e with
    | var n v => simp [toJson, read_withNote, readAlternative, ofUInt32]
    | global n name | nullptr n | new n | other n | int n value | float n value | string n value encoding =>
      simp [toJson, read_withNote, readAlternative]
    | addressOf n a | deref n a | cast n a | unary n op a =>
      have h := depthFields_lt h
      simp only [depthFields] at h
      have ha := ih a (by omega)
      simp [toJson, read_withNote, readAlternative, ha]
    | member n a field arrow =>
      have h := depthFields_lt h
      simp only [depthFields] at h
      have ha := ih a (by omega)
      simp [toJson, read_withNote, readAlternative, flag, ha]
    | index n a b | binary n op a b =>
      have h := depthFields_lt h
      simp only [depthFields] at h
      have ha := ih a (by omega)
      have hb := ih b (by omega)
      simp [toJson, read_withNote, readAlternative, ha, hb]
    | conditional n a b c =>
      have h := depthFields_lt h
      simp only [depthFields] at h
      have ha := ih a (by omega)
      have hb := ih b (by omega)
      have hc := ih c (by omega)
      simp [toJson, read_withNote, readAlternative, ha, hb, hc]
    | call n callee args site =>
      have h := depthFields_lt h
      simp only [depthFields, depth] at h
      have hargs : (toJsonAll args).mapM (read fuel) = some args := by
        rw [toJsonAll_eq]
        refine mapM_map fun a ha => ih a ?_
        have := depth_le_of_mem ha
        omega
      have hcallee : nullable? string? (ofOption .string callee) = some callee :=
        nullable?_ofOption (by simp) (by simp)
      simp [toJson, read_withNote, readAlternative, items, Json.span, list?, hargs, hcallee]

@[simp] theorem ofJson?_toJson (e : Expr) : ofJson? e.toJson = some e :=
  e.read_toJson (Nat.lt_succ_self _)

theorem readable_withNote (n : Note) (alternative : String) (parts : List (String × Json)) :
    (withNote n alternative parts).readable = readableFields parts := by
  simp [withNote, readable, readableFields, CType.readable_toJson]

mutual

theorem readable_toJson (e : Expr) : e.toJson.readable = true := by
  cases e with
  | var n v | global n name | string n value encoding | int n value | float n value =>
    simp [toJson, readable_withNote, readableFields, readable, ofUInt32, ofNat, ofWord]
  | nullptr n | new n | other n => simp [toJson, readable_withNote, readableFields]
  | addressOf n a | deref n a | cast n a | unary n op a | member n a field arrow =>
    simp [toJson, readable_withNote, readableFields, readable, ofWord, a.readable_toJson]
  | index n a b | binary n op a b =>
    simp [toJson, readable_withNote, readableFields, readable, ofWord, a.readable_toJson, b.readable_toJson]
  | conditional n a b c =>
    simp [toJson, readable_withNote, readableFields, a.readable_toJson, b.readable_toJson, c.readable_toJson]
  | call n callee args site =>
    have hargs := readableItems_toJsonAll args
    have hcallee : (ofOption Json.string callee).readable = true := readable_ofOption fun s _ => rfl
    simp [toJson, readable_withNote, readableFields, readable, hargs, hcallee]

theorem readableItems_toJsonAll (es : List Expr) : readableItems (toJsonAll es) = true := by
  cases es with
  | nil => rfl
  | cons e es => simp [toJsonAll, readableItems, e.readable_toJson, readableItems_toJsonAll es]

end

end Expr

/-! ## Statements -/

theorem nullable?_ofOption_expr (o : Option Expr) : nullable? Expr.ofJson? (ofOption Expr.toJson o) = some o :=
  nullable?_ofOption (fun e _ => e.toJson_ne_null) fun e _ => e.ofJson?_toJson

theorem readable_ofOption_expr (o : Option Expr) : (ofOption Expr.toJson o).readable = true :=
  readable_ofOption fun e _ => e.readable_toJson

theorem CallSite.ofFields?_toFields (c : CallSite) (alternative : Json) :
    CallSite.ofFields? (("stmt", alternative) :: c.toFields) = some c := by
  have hcallee : nullable? string? (ofOption .string c.callee) = some c.callee :=
    nullable?_ofOption (by simp) (by simp)
  have hargs : list? Expr.ofJson? (ofList Expr.toJson c.args) = some c.args :=
    list?_ofList fun e _ => e.ofJson?_toJson
  simp [CallSite.ofFields?, CallSite.toFields, items, Json.span, hcallee, hargs]

theorem Jump.ofFields?_toFields (j : Jump) (alternative : Json) :
    Jump.ofFields? (("stmt", alternative) :: j.toFields) = some j := by
  have htarget : nullable? uint32? (ofOption .ofUInt32 j.target) = some j.target :=
    nullable?_ofOption (by simp [ofUInt32, ofNat]) (by simp [ofUInt32])
  have hlabel : nullable? string? (ofOption .string j.label) = some j.label :=
    nullable?_ofOption (by simp) (by simp)
  have hvalue := nullable?_ofOption_expr j.value
  simp [Jump.ofFields?, Jump.toFields, htarget, hlabel, hvalue]

theorem Action.ofFields?_toFields (a : Action) : Action.ofFields? a.toFields = some a := by
  cases a with
  | call site =>
    have hstmt : valuesOf "stmt" site.toFields = [] := by simp [CallSite.toFields]
    simp [Action.ofFields?, Action.toFields, site.ofFields?_toFields, hstmt]
  | jump j =>
    have hstmt : valuesOf "stmt" j.toFields = [] := by simp [Jump.toFields]
    simp [Action.ofFields?, Action.toFields, j.ofFields?_toFields, hstmt]
  | declare v init =>
    have hinit := nullable?_ofOption_expr init
    simp [Action.ofFields?, Action.toFields, ofUInt32, hinit]
  | _ => simp [Action.ofFields?, Action.toFields]

theorem Action.readableFields_toFields (a : Action) : readableFields a.toFields = true := by
  cases a with
  | call site =>
    have hcallee : (ofOption Json.string site.callee).readable = true := readable_ofOption fun s _ => rfl
    have hargs : (ofList Expr.toJson site.args).readable = true := readable_ofList fun e _ => e.readable_toJson
    simp [Action.toFields, CallSite.toFields, readableFields, readable, hcallee, hargs]
  | jump j =>
    have htarget : (ofOption ofUInt32 j.target).readable = true := readable_ofOption fun n _ => rfl
    have hlabel : (ofOption Json.string j.label).readable = true := readable_ofOption fun s _ => rfl
    have hvalue := readable_ofOption_expr j.value
    simp [Action.toFields, Jump.toFields, readableFields, readable, ofWord, htarget, hlabel, hvalue]
  | declare v init =>
    have hinit := readable_ofOption_expr init
    simp [Action.toFields, readableFields, readable, ofUInt32, ofNat, hinit]
  | _ => simp [Action.toFields, readableFields, readable, ofWord, Expr.readable_toJson]

@[simp] theorem Statement.ofJson?_toJson (s : Statement) : Statement.ofJson? s.toJson = some s := by
  have haction := s.action.ofFields?_toFields
  have hreadable := s.action.readableFields_toFields
  simp [Statement.ofJson?, Statement.toJson, Json.span, haction, hreadable]

/-! ## Functions -/

@[simp] theorem Block.ofJson?_toJson (b : Block) : Block.ofJson? b.toJson = some b := by
  have hstatements : list? Statement.ofJson? (ofList Statement.toJson b.statements) = some b.statements :=
    list?_ofList fun s _ => s.ofJson?_toJson
  have hsuccessors : list? uint32? (ofList ofUInt32 b.successors) = some b.successors :=
    list?_ofList (by simp [ofUInt32])
  simp [Block.ofJson?, Block.toJson, items, ofUInt32, Option.bind_eq_some_iff, -Option.bind_some, hstatements, hsuccessors]

@[simp] theorem Variable.ofJson?_toJson (x : Variable) : Variable.ofJson? x.toJson = some x := by
  simp [Variable.ofJson?, Variable.toJson, word?, flag, Json.span, ofUInt32, Option.bind_eq_some_iff, -Option.bind_some,
    -Bool.exists_bool]

@[simp] theorem Function.ofJson?_toJson (f : Function) : Function.ofJson? f.toJson = some f := by
  have hvars : list? Variable.ofJson? (ofList Variable.toJson f.vars) = some f.vars :=
    list?_ofList fun x _ => x.ofJson?_toJson
  have hblocks : list? Block.ofJson? (ofList Block.toJson f.blocks) = some f.blocks :=
    list?_ofList fun b _ => b.ofJson?_toJson
  simp [Function.ofJson?, Function.toJson, items, flag, Json.span, ofUInt32, Option.bind_eq_some_iff, -Option.bind_some,
    -Bool.exists_bool, hvars, hblocks]

/-! ## Units -/

@[simp] theorem FormatAttribute.ofJson?_toJson (a : FormatAttribute) : FormatAttribute.ofJson? a.toJson = some a := by
  have hfirst : nullable? uint64? (ofOption ofUInt64 a.firstArgIndex) = some a.firstArgIndex :=
    nullable?_ofOption (by simp [ofUInt64, ofNat]) (by simp [ofUInt64])
  simp [FormatAttribute.ofJson?, FormatAttribute.toJson, ofUInt64, Option.bind_eq_some_iff, -Option.bind_some, hfirst]

@[simp] theorem Declaration.ofJson?_toJson (d : Declaration) : Declaration.ofJson? d.toJson = some d := by
  have hparams : list? CType.ofJson? (ofList CType.toJson d.params) = some d.params :=
    list?_ofList fun t _ => t.ofJson?_toJson
  have hformat : nullable? FormatAttribute.ofJson? (ofOption FormatAttribute.toJson d.format) = some d.format :=
    nullable?_ofOption (fun a _ => nofun) fun a _ => a.ofJson?_toJson
  simp [Declaration.ofJson?, Declaration.toJson, items, flag, Json.span, hparams, hformat]

@[simp] theorem DeclaredSymbol.ofJson?_toJson (s : DeclaredSymbol) : DeclaredSymbol.ofJson? s.toJson = some s := by
  have hdeclarations : list? Declaration.ofJson? (ofList Declaration.toJson s.declarations) = some s.declarations :=
    list?_ofList fun d _ => d.ofJson?_toJson
  simp [DeclaredSymbol.ofJson?, DeclaredSymbol.toJson, items, hdeclarations]

@[simp] theorem SourceUnit.ofJson?_toJson (u : SourceUnit) : SourceUnit.ofJson? u.toJson = some u := by
  obtain ⟨file, target, symbols, functions⟩ := u
  have hsymbols : list? DeclaredSymbol.ofJson? (ofList DeclaredSymbol.toJson symbols) = some symbols :=
    list?_ofList fun s _ => s.ofJson?_toJson
  have hfunctions : list? Function.ofJson? (ofList Function.toJson functions) = some functions :=
    list?_ofList fun f _ => f.ofJson?_toJson
  -- a unit without a target has one field less
  cases target with
  | none => simp [SourceUnit.ofJson?, SourceUnit.toJson, items, hsymbols, hfunctions]
  | some p =>
    have hp : nullable? word? (ofOption ofWord (some p)) = some (some p) :=
      nullable?_ofOption (by simp [ofWord]) (by simp [word?])
    rw [ofOption] at hp
    simp [SourceUnit.ofJson?, SourceUnit.toJson, items, hp, hsymbols, hfunctions]

/-- A snapshot is read back from the value that is written for it. -/
theorem Snapshot.toJson_readsBack (s : Snapshot) : Snapshot.ofJson? s.toJson = some s := by
  have hunits : list? SourceUnit.ofJson? (ofList SourceUnit.toJson s.units) = some s.units :=
    list?_ofList fun u _ => u.ofJson?_toJson
  simp [Snapshot.ofJson?, Snapshot.toJson, hunits]

end FlowLint
