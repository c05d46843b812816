import FlowLint.Format.Registry

/-!
# What a registry knows of a name

A registry is built stage by stage, over all names at once. What it knows of one name in the end comes from the declarations of that
name and, if they make no entry, from the first function of that name that is a wrapper (`lookup_ofUnits`): each stage is looked
at through `OrdMap.get?`, at that name alone.
-/

namespace FlowLint.Format

variable {units : List SourceUnit} {name : String}

/-! ## Declarations -/

/-- The declarations of a name in units, each with its file. -/
def declarationsOf (units : List SourceUnit) (name : String) : List (String × Declaration) :=
  units.flatMap fun u => u.symbols.flatMap fun s => if s.name = name then s.declarations.map (u.file, ·) else []

theorem get?_addSymbol (file : String) (table : Declarations) (s : DeclaredSymbol) (name : String) :
    ((table.addSymbol file s).get? name).getD [] =
      (table.get? name).getD [] ++ if s.name = name then s.declarations.map (file, ·) else [] := by
  unfold Declarations.addSymbol
  rw [OrdMap.get?_alter]
  by_cases h : name = s.name
  · simp [h, Std.ReflCmp.compare_self]
  · have hne : s.name ≠ name := Ne.symm h
    simp [h, hne, Std.LawfulEqCmp.compare_eq_iff_eq]

theorem get?_foldl_addSymbol (file : String) (symbols : List DeclaredSymbol) (table : Declarations) (name : String) :
    ((symbols.foldl (Declarations.addSymbol file) table).get? name).getD [] = (table.get? name).getD [] ++
      symbols.flatMap fun s => if s.name = name then s.declarations.map (file, ·) else [] := by
  induction symbols generalizing table with
  | nil => simp
  | cons s symbols ih => rw [List.foldl_cons, ih, get?_addSymbol, List.flatMap_cons, List.append_assoc]

/-- The declarations of a name are put together in the order of the units. -/
theorem get?_ofUnits (units : List SourceUnit) (name : String) :
    ((Declarations.ofUnits units).get? name).getD [] = declarationsOf units name := by
  have hfold : ∀ table : Declarations,
      ((units.foldl (fun table u => u.symbols.foldl (Declarations.addSymbol u.file) table) table).get? name).getD [] =
        (table.get? name).getD [] ++ declarationsOf units name := by
    unfold declarationsOf
    induction units with
    | nil => simp
    | cons u units ih =>
      intro table
      rw [List.foldl_cons, ih, get?_foldl_addSymbol, List.flatMap_cons, List.append_assoc]
  exact hfold .empty

/-! ## Declared and standard functions -/

/-- The entry of a name by its declarations in units. -/
def entryOf? (units : List SourceUnit) (name : String) : Option Entry := Entry.ofDeclarations? name (declarationsOf units name)

/-- Declarations without attributes make an entry of a standard function alone. -/
theorem ofDeclarations?_or_builtin (name : String) (ds : List (String × Declaration)) :
    (Entry.ofDeclarations? name ds <|> (builtin? name).map .known) = Entry.ofDeclarations? name ds := by
  unfold Entry.ofDeclarations?
  cases attributesOf ds with
  | nil => cases builtin? name <;> rfl
  | cons a as => cases as <;> rfl

theorem ofDeclarations?_nil (name : String) : Entry.ofDeclarations? name [] = (builtin? name).map .known := by
  simp [Entry.ofDeclarations?, attributesOf, declaredEncoding?]

theorem get?_addDeclared (entries : OrdMap String Entry) (d : String × List (String × Declaration)) (name : String) :
    (addDeclared entries d).get? name =
      if name = d.1 then Entry.ofDeclarations? name d.2 <|> entries.get? name else entries.get? name := by
  unfold addDeclared
  by_cases h : name = d.1
  · subst h
    cases Entry.ofDeclarations? d.1 d.2 <;> simp [OrdMap.get?_insert]
  · cases Entry.ofDeclarations? d.1 d.2 <;> simp [h, OrdMap.get?_insert]

theorem get?_addBuiltin (entries : OrdMap String Entry) (f : Formatter) (name : String) :
    (addBuiltin entries f).get? name = (entries.get? name <|> if f.name = name then some (.known f) else none) := by
  unfold addBuiltin
  rw [OrdMap.get?_alter]
  by_cases h : name = f.name
  · subst h
    cases entries.get? f.name <;> simp [Std.ReflCmp.compare_self]
  · have hne : f.name ≠ name := Ne.symm h
    simp [h, hne, Std.LawfulEqCmp.compare_eq_iff_eq]

/-- The first of standard functions of one name gives the entry, if there is none. -/
theorem get?_foldl_addBuiltin (fs : List Formatter) (entries : OrdMap String Entry) (name : String) :
    (fs.foldl addBuiltin entries).get? name =
      (entries.get? name <|> (fs.find? fun f => f.name == name).map .known) := by
  induction fs generalizing entries with
  | nil => simp
  | cons f fs ih =>
    rw [List.foldl_cons, ih, get?_addBuiltin]
    by_cases h : f.name = name
    · cases entries.get? name <;> simp [h]
    · simp [h]

/-- A name that is declared or standard has the entry that its declarations make. -/
theorem get?_knownEntries (units : List SourceUnit) (name : String) : (knownEntries units).get? name = entryOf? units name := by
  unfold knownEntries entryOf?
  rw [get?_foldl_addBuiltin, OrdMap.get?_foldl_entries Entry.ofDeclarations? get?_addDeclared, OrdMap.get?_empty, ← get?_ofUnits]
  have hstandard : (builtins.find? fun f => f.name == name) = builtin? name := rfl
  rw [hstandard]
  cases (Declarations.ofUnits units).get? name with
  | none => simp [ofDeclarations?_nil]
  | some ds => simpa using ofDeclarations?_or_builtin name ds

/-! ## Wrappers -/

/-- The functions of a name in units. -/
def functionsNamed (units : List SourceUnit) (name : String) : List Function :=
  (units.flatMap SourceUnit.functions).filter fun f => f.name == name

theorem get?_addWrapper (known : OrdMap String Entry) (wrappers : OrdMap String Formatter) (f : Function) (name : String) :
    (addWrapper known wrappers f).get? name = (wrappers.get? name <|>
      if f.name = name ∧ known.get? name = none then wrapper? known.get? f else none) := by
  unfold addWrapper
  by_cases h : name = f.name
  · subst h
    cases hknown : known.get? f.name with
    | some _ => simp
    | none =>
      cases hwrapper : wrappers.get? f.name with
      | some _ => simp [hwrapper]
      | none => cases wrapper? known.get? f <;> simp [hwrapper, OrdMap.get?_insert]
  · have hne : f.name ≠ name := Ne.symm h
    split
    · simp [hne]
    · cases wrapper? known.get? f <;> simp [h, hne, OrdMap.get?_insert]

/-- The first wrapper among functions of one name gives the formatter, if the name has no entry. -/
theorem get?_foldl_addWrapper (known : OrdMap String Entry) (fs : List Function) (wrappers : OrdMap String Formatter)
    (name : String) :
    (fs.foldl (addWrapper known) wrappers).get? name = (wrappers.get? name <|>
      if known.get? name = none then (fs.filter fun f => f.name == name).findSome? (wrapper? known.get?) else none) := by
  induction fs generalizing wrappers with
  | nil => simp
  | cons f fs ih =>
    rw [List.foldl_cons, ih, get?_addWrapper]
    by_cases hname : f.name = name
    · by_cases hknown : known.get? name = none
      · cases wrappers.get? name <;> cases hw : wrapper? known.get? f <;> simp [hname, hknown, hw]
      · simp [hknown]
    · simp [hname]

/-- What is known of a name: what its declarations make known, and otherwise what its first wrapper does. -/
theorem lookup_ofUnits (units : List SourceUnit) (name : String) :
    (Registry.ofUnits units).lookup name = (entryOf? units name <|>
      ((functionsNamed units name).findSome? (wrapper? (entryOf? units))).map .known) := by
  have hknown : (knownEntries units).get? = entryOf? units := funext (get?_knownEntries units)
  have hstep : ∀ (entries : OrdMap String Entry) (w : String × Formatter) (x : String),
      (entries.insert w.1 (.known w.2)).get? x = if x = w.1 then some (.known w.2) <|> entries.get? x else entries.get? x := by
    intro entries w x
    rw [OrdMap.get?_insert]
    rfl
  unfold Registry.lookup Registry.ofUnits
  rw [OrdMap.get?_foldl_entries (fun _ => some ∘ .known) hstep, wrappersIn, get?_foldl_addWrapper,
    OrdMap.get?_empty, hknown]
  cases hentry : entryOf? units name with
  | some e => simp
  | none => simp [functionsNamed, Option.map_eq_bind]

end FlowLint.Format
