import FlowLint.Proofs.Format.Wrappers

/-!
# The encoding of a format

A formatter that is declared or standard expects its format in the encoding of the first declaration that gives one, as the units
list them, and otherwise in that of the standard function of its name. Each declaration can be brought to the front, hence the
encodings of a formatter over all orders of a program are those that its declarations give: there is only one exactly if they
agree (`encoding_reordered`).
-/

namespace FlowLint

/-- The same unit with its symbols and their declarations in another order. -/
structure SourceUnit.Relists (u v : SourceUnit) : Prop extends SourceUnit.Reorders u v where
  same : u.functions = v.functions

/-! ## Bringing to the front -/

/-- An element of a list can be replaced by a related one that stands in front. -/
theorem exists_rearranged_cons {α : Type} {r : α → α → Prop} (hrefl : ∀ x, r x x) {l : List α} {a b : α} (ha : a ∈ l)
    (hab : r a b) : ∃ rest, Rearranged r l (b :: rest) := by
  obtain ⟨front, behind, rfl⟩ := List.append_of_mem ha
  exact ⟨front ++ behind, a :: (front ++ behind), List.perm_middle, .cons hab (List.forall₂_same.2 fun x _ => hrefl x)⟩

theorem DeclaredSymbol.Reorders.refl (s : DeclaredSymbol) : s.Reorders s := ⟨rfl, .refl _⟩

theorem SourceUnit.Relists.refl (u : SourceUnit) : u.Relists u :=
  ⟨⟨rfl, rfl, ⟨u.symbols, .refl _, List.forall₂_same.2 fun s _ => .refl s⟩, .refl _⟩, rfl⟩

theorem Rearranged.reorders {units units' : List SourceUnit} (h : Rearranged SourceUnit.Relists units units') :
    Rearranged SourceUnit.Reorders units units' := by
  obtain ⟨k, hperm, hrelated⟩ := h
  exact ⟨k, hperm, hrelated.imp fun _ _ => SourceUnit.Relists.toReorders⟩

namespace Format

variable {units units' : List SourceUnit} {name : String} {f : Formatter} {e : Encoding} {d : String × Declaration}

/-- Each declaration of a name is its first one in some order. -/
theorem exists_declarationsOf_cons (hd : d ∈ declarationsOf units name) :
    ∃ units', Rearranged SourceUnit.Relists units units' ∧ ∃ rest, declarationsOf units' name = d :: rest := by
  obtain ⟨u, hu, hd⟩ := List.mem_flatMap.1 hd
  obtain ⟨s, hs, hd⟩ := List.mem_flatMap.1 hd
  split at hd
  · rename_i hname
    obtain ⟨decl, hdecl, rfl⟩ := List.mem_map.1 hd
    obtain ⟨front, behind, hsplit⟩ := List.append_of_mem hdecl
    have hsymbol : s.Reorders ⟨s.name, decl :: (front ++ behind)⟩ := ⟨rfl, hsplit ▸ List.perm_middle⟩
    obtain ⟨symbols, hsymbols⟩ := exists_rearranged_cons DeclaredSymbol.Reorders.refl hs hsymbol
    have hunit : u.Relists { u with symbols := ⟨s.name, decl :: (front ++ behind)⟩ :: symbols } :=
      ⟨⟨rfl, rfl, hsymbols, .refl _⟩, rfl⟩
    obtain ⟨behindUnits, hunits⟩ := exists_rearranged_cons SourceUnit.Relists.refl hu hunit
    refine ⟨_, hunits, ?_⟩
    unfold declarationsOf
    rw [List.flatMap_cons, List.flatMap_cons, if_pos hname, List.map_cons, List.cons_append, List.cons_append]
    exact ⟨_, rfl⟩
  · exact absurd hd List.not_mem_nil

/-! ## Which declarations count -/

/-- The encoding that a formatter has if no declaration gives one. -/
def fallback (name : String) : Encoding := ((builtin? name).map Formatter.encoding).getD .narrow

/-- Whether a declaration is looked at for the encoding: each one is, unless the formatter is known by an attribute that the
declaration does not carry. -/
def Counts (f : Formatter) (d : String × Declaration) : Prop := f.source = .attribute → d.2.format.isSome = true

instance (f : Formatter) (d : String × Declaration) : Decidable (Counts f d) :=
  inferInstanceAs (Decidable (f.source = .attribute → d.2.format.isSome = true))

/-- The encoding of the characters that the format parameter of a declaration points to. -/
def formatEncoding? (f : Formatter) (d : String × Declaration) : Option Encoding :=
  (d.2.params[f.formatIndex]?).bind pointedEncoding?

/-- Some declaration that counts gives an encoding. -/
def Gives (units : List SourceUnit) (f : Formatter) (e : Encoding) : Prop :=
  ∃ d ∈ declarationsOf units f.name, Counts f d ∧ formatEncoding? f d = some e

/-- The declarations of a formatter with one attribute that count are those that carry the attribute. -/
theorem filter_counts_of_attribute {ds : List (String × Declaration)} {a : FormatAttribute} (ha : attributesOf ds = [a])
    (hf : f.source = .attribute) : (ds.filter fun d => d.2.format == some a) = ds.filter (Counts f) := by
  refine List.filter_congr fun d hd => ?_
  have hcounts : Counts f d ↔ d.2.format.isSome = true := imp_iff_right hf
  rw [Bool.eq_iff_iff, beq_iff_eq, decide_eq_true_eq, hcounts]
  constructor
  · exact fun h => h ▸ rfl
  · intro h
    obtain ⟨b, hb⟩ := Option.isSome_iff_exists.1 h
    have hmem : b ∈ attributesOf ds := mem_attributesOf.2 ⟨d, hd, hb⟩
    rw [ha, List.mem_singleton] at hmem
    rw [hb, hmem]

/-- A formatter has the encoding of the first declaration that gives one, or else that of the standard function of its name. -/
theorem encoding_eq (h : IsPrimary units f) : f.encoding =
    (((declarationsOf units f.name).filter (Counts f)).findSome? (formatEncoding? f)).getD (fallback f.name) := by
  have hentry : entryOf? units f.name = some (.known f) := entryOf?_eq_known_iff.2 ⟨rfl, h⟩
  have hsearch : ∀ ds, ds.findSome? (formatEncoding? f) = declaredEncoding? ds f.formatIndex := fun _ => rfl
  rw [hsearch]
  unfold entryOf? Entry.ofDeclarations? at hentry
  split at hentry
  · obtain ⟨g, hg, hf⟩ := Option.map_eq_some_iff.1 hentry
    have hf := (Entry.known.inj hf).symm
    have hindex : f.formatIndex = g.formatIndex := by rw [hf]
    have hcounts : ∀ d ∈ declarationsOf units f.name, decide (Counts f d) = true := by
      intro d _
      refine decide_eq_true fun hsource => ?_
      rw [hf, source_of_mem_builtins g (builtin?_eq_some_iff.1 hg).1] at hsource
      cases hsource
    rw [List.filter_eq_self.2 hcounts, fallback, hg, hindex]
    exact congrArg Formatter.encoding hf
  · rename_i a ha
    have hf := (Entry.known.inj (Option.some.inj hentry)).symm
    have hindex : f.formatIndex = a.formatIndex.toNat := by rw [hf]
    rw [← filter_counts_of_attribute ha (congrArg Formatter.source hf), hindex]
    refine (congrArg Formatter.encoding hf).trans ?_
    cases declaredEncoding? _ a.formatIndex.toNat <;> rfl
  · cases hentry

/-! ## Encodings over all orders -/

/-- In each order a formatter is the same but for its encoding. -/
theorem IsPrimary.reordered (h : IsPrimary units f) (hunits : Rearranged SourceUnit.Relists units units') :
    ∃ e, IsPrimary units' { f with encoding := e } := by
  obtain ⟨hlookup, hsource⟩ := h
  have hclass := sameClass_lookup hunits.reorders f.name
  rw [hlookup] at hclass
  generalize hlookup' : (Registry.ofUnits units').lookup f.name = entry at hclass
  cases hclass with
  | @known _ g hname hsame hindex hfirst =>
    obtain ⟨gname, gindex, gfirst, e, gsource⟩ := g
    dsimp only at hname hsame hindex hfirst
    subst hname hsame hindex hfirst
    exact ⟨e, hlookup', hsource⟩
  | wrapper _ left _ =>
    rcases hsource with hsource | hsource <;> (rw [left] at hsource; cases hsource)

/-- The same encodings are given in each order. -/
theorem gives_reordered (hunits : Rearranged SourceUnit.Relists units units') {e' : Encoding} :
    Gives units' { f with encoding := e' } e ↔ Gives units f e :=
  exists_congr fun _ => and_congr_left fun _ => (declarationsOf_perm hunits.reorders f.name).mem_iff.symm

/-- An encoding that a formatter has is given by a declaration, unless none gives any and it is that of the standard function. -/
theorem IsPrimary.gives_or (h : IsPrimary units f) :
    Gives units f f.encoding ∨ (∀ e, ¬Gives units f e) ∧ f.encoding = fallback f.name := by
  have hencoding := encoding_eq h
  cases hfound : ((declarationsOf units f.name).filter (Counts f)).findSome? (formatEncoding? f) with
  | some e =>
    obtain ⟨d, hd, he⟩ := List.exists_of_findSome?_eq_some hfound
    obtain ⟨hd, hcounts⟩ := List.mem_filter.1 hd
    rw [hfound] at hencoding
    exact .inl ⟨d, hd, of_decide_eq_true hcounts, hencoding ▸ he⟩
  | none =>
    rw [hfound] at hencoding
    refine .inr ⟨fun e ⟨d, hd, hcounts, he⟩ => ?_, hencoding⟩
    rw [List.findSome?_eq_none_iff.1 hfound d (List.mem_filter.2 ⟨hd, decide_eq_true hcounts⟩)] at he
    cases he

/-- An encoding that a declaration gives is that of the formatter in some order. -/
theorem IsPrimary.exists_of_gives (h : IsPrimary units f) (hgives : Gives units f e) :
    ∃ units', Rearranged SourceUnit.Relists units units' ∧ IsPrimary units' { f with encoding := e } := by
  obtain ⟨d, hd, hcounts, he⟩ := hgives
  obtain ⟨units', hunits, rest, hrest⟩ := exists_declarationsOf_cons hd
  obtain ⟨e', h'⟩ := h.reordered hunits
  have hencoding : e' = (((declarationsOf units' f.name).filter (Counts f)).findSome? (formatEncoding? f)).getD
      (fallback f.name) := encoding_eq h'
  rw [hrest, List.filter_cons, if_pos (decide_eq_true hcounts), List.findSome?_cons, he] at hencoding
  obtain rfl : e' = e := hencoding
  exact ⟨units', hunits, h'⟩

/-- The order in which a program is given is one of its orders. -/
theorem rearranged_self (units : List SourceUnit) : Rearranged SourceUnit.Relists units units :=
  ⟨units, .refl _, List.forall₂_same.2 fun u _ => .refl u⟩

/-- The encodings that a formatter has in some order. -/
theorem IsPrimary.exists_reordered_iff (h : IsPrimary units f) :
    (∃ units', Rearranged SourceUnit.Relists units units' ∧ IsPrimary units' { f with encoding := e }) ↔
      Gives units f e ∨ (∀ e', ¬Gives units f e') ∧ e = fallback f.name := by
  constructor
  · rintro ⟨units', hunits, h'⟩
    simpa only [gives_reordered hunits] using h'.gives_or
  · rintro (hgives | ⟨hnone, rfl⟩)
    · exact h.exists_of_gives hgives
    · obtain ⟨-, hfallback⟩ := h.gives_or.resolve_left (hnone _)
      exact ⟨units, rearranged_self units, hfallback ▸ h⟩

/-- The encodings that a declared or standard formatter has in some order of the units, of their symbols and of the declarations are
those that its declarations give or, if they give none, that of the standard function of its name. So the formatter is the
same in each order exactly if its declarations give one encoding at most. -/
theorem encoding_reordered (h : IsPrimary units f) :
    (∀ e, (∃ units', Rearranged SourceUnit.Relists units units' ∧ IsPrimary units' { f with encoding := e }) ↔
      Gives units f e ∨ (∀ e', ¬Gives units f e') ∧ e = fallback f.name) ∧
    ((∀ units', Rearranged SourceUnit.Relists units units' → IsPrimary units' f) ↔
      ∀ e e', Gives units f e → Gives units f e' → e = e') := by
  refine ⟨fun e => h.exists_reordered_iff, fun hsame e e' he he' => ?_, fun hagree units' hunits => ?_⟩
  · have hencoding : ∀ e, Gives units f e → e = f.encoding := by
      intro e he
      obtain ⟨units', hunits, h'⟩ := h.exists_of_gives he
      have hentry := Option.some.inj (h'.1.symm.trans (hsame units' hunits).1)
      exact congrArg Formatter.encoding (Entry.known.inj hentry)
    rw [hencoding e he, hencoding e' he']
  · obtain ⟨e, h'⟩ := h.reordered hunits
    obtain rfl : e = f.encoding := by
      rcases h.exists_reordered_iff.1 ⟨units', hunits, h'⟩, h.gives_or with ⟨he | ⟨hnone, he⟩, hf | ⟨hnone', hf⟩⟩
      · exact hagree e f.encoding he hf
      · exact absurd he (hnone' e)
      · exact absurd hf (hnone f.encoding)
      · rw [he, hf]
    exact h'

/-- A file that declares `log` with a parameter of a type for its format. -/
def logDeclared (file : String) (format : CType) : SourceUnit where
  file := file
  target := none
  symbols := [⟨"log", [⟨[format], true, some ⟨0, some 1⟩, .zero⟩]⟩]
  functions := []

/-- The formatter `log`. -/
def logFormatter (e : Encoding) : Formatter := ⟨"log", 0, some 1, e, .attribute⟩

/-- A file in which `log` takes narrow characters. -/
def narrowLog : SourceUnit := logDeclared "a.c" (.pointer (.char .char))

/-- A file in which `log` takes wide characters. -/
def wideLog : SourceUnit := logDeclared "b.c" (.pointer (.char .wchar))

/-- A file in which `log` takes a pointer to anything. -/
def opaqueLog : SourceUnit := logDeclared "c.c" (.pointer .void)

/-- A declaration that gives no encoding leaves `log` to the other one in each order. -/
theorem encoding_log_declaredOnce : IsPrimary [opaqueLog, wideLog] (logFormatter .wide) ∧
    ∀ units, Rearranged SourceUnit.Relists [opaqueLog, wideLog] units → IsPrimary units (logFormatter .wide) := by
  have hprimary : IsPrimary [opaqueLog, wideLog] (logFormatter .wide) := ⟨by decide +kernel, .inl rfl⟩
  refine ⟨hprimary, (encoding_reordered hprimary).2.2 fun e e' he he' => ?_⟩
  have hwide : ∀ e, Gives [opaqueLog, wideLog] (logFormatter .wide) e → e = .wide := by
    rintro e ⟨d, hd, -, he⟩
    have hgiven : ∀ d ∈ declarationsOf [opaqueLog, wideLog] "log", formatEncoding? (logFormatter .wide) d ∈ [none, some .wide] := by
      decide +kernel
    have hmem := hgiven d hd
    rw [he] at hmem
    simpa using hmem
  rw [hwide e he, hwide e' he']

/-- Two declarations that give different encodings: the first one decides. -/
theorem encoding_log_declaredTwice : Rearranged SourceUnit.Relists [narrowLog, wideLog] [wideLog, narrowLog] ∧
    IsPrimary [narrowLog, wideLog] (logFormatter .narrow) ∧ IsPrimary [wideLog, narrowLog] (logFormatter .wide) := by
  have hswap : Rearranged SourceUnit.Relists [narrowLog, wideLog] [wideLog, narrowLog] :=
    ⟨_, .swap _ _ _, List.forall₂_same.2 fun u _ => .refl u⟩
  exact ⟨hswap, ⟨by decide +kernel, .inl rfl⟩, ⟨by decide +kernel, .inl rfl⟩⟩

end Format

end FlowLint
