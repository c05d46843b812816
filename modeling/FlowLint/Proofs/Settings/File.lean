import FlowLint.Proofs.Yaml.Reader
import FlowLint.Settings.File

/-!
# Settings that are written and read back

Settings are written to a file as overrides of their preset, all but those that have no value (`Settings.toFile`). The text of
such a file is that of a mapping of words, from which the file itself is read back (`Settings.ofYamlText_yamlText`). What the
file leaves out is the catch: where no data model is set, the one of the preset holds again. `Settings.refilled` are the
settings that come out, and `Settings.yamlText_reloads` says when they are those that went in.
-/

namespace FlowLint

open Yaml

/-! ## Files as values -/

theorem isNull?_ofWord_model (m : DataModel) : (ofWord m).isNull? = some false := by
  cases m <;> rfl

theorem isNull?_ofWord_ambiguity (p : AmbiguityPolicy) : (ofWord p).isNull? = some false := by
  cases p <;> rfl

/-- Overrides are read back from the mapping that they are written as. -/
theorem Overrides.ofYaml?_toYaml (o : Overrides) : Overrides.ofYaml? o.toYaml = some o := by
  unfold ofYaml? toYaml
  rw [← List.append_nil (entryIfAny "num_threads" _ o.threads)]
  simp only [List.append_assoc]
  rw [entries?_of_sublist ?_ (by decide)]
  · simp [-List.append_nil, optional_entryIfAny_of_ne, optional_entryIfAny, isNull?_ofNat, isNull?_ofBool, isNull?_ofWord_model,
      isNull?_ofWord_ambiguity, uint32?_ofNat, uint64?_ofNat, bool?_ofBool, word?_ofWord, optional_nil]
  · iterate 11 refine keys_entryIfAny_append ?_ _ _ _
    exact List.nil_sublist []

/-- A file is read back from the mapping that it is written as, unless the name of its preset stands for nothing. -/
theorem SettingsFile.ofYaml?_toYaml {f : SettingsFile} (h : ∀ name ∈ f.preset, (plain name).isNull? = some false) :
    SettingsFile.ofYaml? f.toYaml = some f := by
  unfold ofYaml? toYaml
  rw [← List.append_nil (entryIfAny "overrides" _ f.overrides)]
  simp only [List.append_assoc]
  rw [entries?_of_sublist ?_ (by decide)]
  · have hpreset : ∀ rest, optional (entryIfAny "preset" plain f.preset ++ rest) "preset" string? = _ :=
      optional_entryIfAny h (fun _ _ => rfl) "preset"
    have hoverrides : ∀ o : Overrides, o.toYaml.isNull? = some false := fun _ => rfl
    simp [-List.append_nil, optional_entryIfAny_of_ne, hpreset, optional_entryIfAny, isNull?_ofNat, uint32?_ofNat, hoverrides,
      Overrides.ofYaml?_toYaml, optional_nil]
  · iterate 3 refine keys_entryIfAny_append ?_ _ _ _
    exact List.nil_sublist []

namespace Settings

/-! ## Reading settings again -/

theorem preset_applyAll (s : Settings) (changes : List Change) : (s.applyAll changes).preset = s.preset := by
  induction changes generalizing s with
  | nil => rfl
  | cons change changes ih =>
    have hstep : (s.apply change).preset = s.preset := by cases change <;> rfl
    exact (ih (s.apply change)).trans hstep

/-- The settings with the data model of their preset, if none is set and that one has their word size. -/
def refilled (s : Settings) : Settings :=
  { s with model := s.model <|> (some s.preset.model).filter fun m => m.wordSize == s.wordSize }

theorem presetOf_word (p : Preset) : SettingsFile.presetOf (some (Vocabulary.word p)) = .ok p := by
  cases p <;> rfl

/-- The overrides that are written lead from the preset to the settings, but for a data model that is not set. -/
theorem applyAll_changes (s : Settings) :
    (ofPreset s.preset).applyAll ((s.toFile.overrides.map Overrides.changes).getD []) = s.refilled := by
  obtain ⟨preset, wordSize, wcharWidth, model, ambiguity, checkWidths, formatChecks, unreachableCode, stackEscape,
    diagnosticCap, maxIterations, threads⟩ := s
  cases model <;> cases diagnosticCap <;> cases threads <;> rfl

theorem mismatch?_refilled (s : Settings) : s.refilled.mismatch? = s.mismatch? := by
  unfold mismatch? refilled
  cases s.model with
  | some m => rfl
  | none =>
    by_cases h : s.preset.model.wordSize = s.wordSize <;> simp [Option.filter, h]

theorem problem?_refilled (s : Settings) : s.refilled.problem? = s.problem? := by
  unfold problem?
  rw [mismatch?_refilled]
  rfl

theorem validate_of_problem? {s : Settings} (h : s.problem? = none) : ∃ c : Valid, s.validate = .ok c ∧ c.val = s := by
  unfold validate
  split
  · rename_i q hq
    rw [h] at hq
    cases hq
  · exact ⟨_, rfl, rfl⟩

theorem val_of_validate {s : Settings} {c : Valid} (h : s.validate = .ok c) : c.val = s := by
  unfold validate at h
  split at h
  · cases h
  · obtain rfl := Except.ok.inj h
    rfl

theorem settings_toFile {s : Settings} (h : s.problem? = none) : ∃ r : Valid, s.toFile.settings = .ok r ∧ r.val = s.refilled := by
  have hsettings : s.toFile.settings = s.refilled.validate := by
    have hstep : s.toFile.settings = (SettingsFile.presetOf (some (Vocabulary.word s.preset))).bind fun p =>
        ((ofPreset p).applyAll ((s.toFile.overrides.map Overrides.changes).getD [])).validate := rfl
    rw [hstep, presetOf_word, Except.bind, applyAll_changes]
  rw [hsettings]
  exact validate_of_problem? ((problem?_refilled s).trans h)

theorem ofYaml?_toFile (s : Settings) : SettingsFile.ofYaml? s.toFile.toYaml = some s.toFile := by
  refine SettingsFile.ofYaml?_toYaml fun name hname => ?_
  obtain rfl := Option.some.inj hname
  cases s.preset <;> rfl

/-- The overrides of settings are written with words. -/
theorem ofWords_overrides {o : Overrides} (h : ∃ n, o.wordSize = some n) : o.toYaml.OfWords := by
  obtain ⟨wordSize, hwordSize⟩ := h
  have hword : ∀ n : UInt32, (ofNat n.toNat).OfWords := fun n => ofWords_ofNat n.toNat
  have hlong : ∀ n : UInt64, (ofNat n.toNat).OfWords := fun n => ofWords_ofNat n.toNat
  have hmodel : ∀ m : DataModel, (ofWord m).OfWords := fun m => ofWords_plain.2 (by cases m <;> decide)
  have hambiguity : ∀ a : AmbiguityPolicy, (ofWord a).OfWords := fun a => ofWords_plain.2 (by cases a <;> decide)
  unfold Overrides.toYaml
  rw [OfWords]
  refine ⟨by simp [hwordSize, entryIfAny], ?_⟩
  rw [← List.append_nil (entryIfAny "num_threads" _ o.threads)]
  simp only [List.append_assoc]
  iterate 2 refine entriesOfWords_entryIfAny (by decide) (fun a _ => hword a) ?_
  refine entriesOfWords_entryIfAny (by decide) (fun a _ => hmodel a) ?_
  refine entriesOfWords_entryIfAny (by decide) (fun a _ => hambiguity a) ?_
  iterate 4 refine entriesOfWords_entryIfAny (by decide) (fun b _ => ofWords_ofBool b) ?_
  iterate 3 refine entriesOfWords_entryIfAny (by decide) (fun a _ => hlong a) ?_
  rw [EntriesOfWords]
  trivial

/-- The text of settings is read back as the file that they are written to. -/
theorem read?_yamlText (s : Settings) : Yaml.read? s.yamlText = some s.toFile.toYaml := by
  have hpreset : (plain (Vocabulary.word s.preset)).OfWords := ofWords_plain.2 (by cases s.preset <;> decide)
  have hentries : s.toFile.toYaml.OfWords := by
    unfold SettingsFile.toYaml
    rw [OfWords, ← List.append_nil (entryIfAny "overrides" _ _)]
    simp only [List.append_assoc]
    refine ⟨List.cons_ne_nil _ _, ?_⟩
    refine entriesOfWords_entryIfAny (by decide) (fun n _ => ofWords_ofNat n.toNat) ?_
    refine entriesOfWords_entryIfAny (by decide) (fun name hname => ?_) ?_
    · obtain rfl := Option.some.inj hname
      exact hpreset
    refine entriesOfWords_entryIfAny (by decide) (fun o ho => ?_) ?_
    · obtain rfl := Option.some.inj ho
      exact ofWords_overrides ⟨s.wordSize, rfl⟩
    rw [EntriesOfWords]
    trivial
  exact read?_entriesText hentries

/-- Reading the text that settings without a problem are written as gives the settings that come out. -/
theorem ofYamlText_yamlText {s : Settings} (h : s.problem? = none) :
    ∃ r : Valid, ofYamlText s.yamlText = .ok r ∧ r.val = s.refilled := by
  rw [ofYamlText, read?_yamlText, Option.bind_some, ofYaml?_toFile]
  exact settings_toFile h

theorem refilled_eq_iff (s : Settings) : s.refilled = s ↔ s.model ≠ none ∨ s.preset.model.wordSize ≠ s.wordSize := by
  have hmodel : s.refilled = s ↔ s.refilled.model = s.model := by
    constructor
    · intro h
      rw [h]
    · intro h
      calc s.refilled = { s with model := s.refilled.model } := rfl
        _ = s := by rw [h]
  rw [hmodel]
  unfold refilled
  cases s.model with
  | some m => simp
  | none => simp [Option.filter]

/-- Only on 64-bit Windows is the data model of the preset another one than that taken for its word size. -/
theorem target_refilled_iff (s : Settings) :
    s.refilled.target = s.target ↔ s.model ≠ none ∨ s.wordSize ≠ 64 ∨ s.preset ≠ .windowsX64 := by
  have hmodel : s.refilled.target = s.target ↔ s.refilled.dataModel = s.dataModel := by
    unfold target
    rw [Target.mk.injEq]
    exact and_iff_left rfl
  rw [hmodel]
  change (s.model <|> (some s.preset.model).filter fun m => m.wordSize == s.wordSize).getD (.ofWordSize s.wordSize) =
    s.model.getD (.ofWordSize s.wordSize) ↔ _
  cases s.model with
  | some m => simp
  | none =>
    by_cases hword : s.preset.model.wordSize = s.wordSize
    · have hpreset : ∀ p : Preset, p.model = .ofWordSize p.model.wordSize ↔ p.model.wordSize ≠ 64 ∨ p ≠ .windowsX64 := by
        intro p
        cases p <;> decide
      rw [← hword]
      simpa [Option.filter] using hpreset s.preset
    · have hother : s.wordSize ≠ 64 ∨ s.preset ≠ .windowsX64 := by
        by_contra h
        push Not at h
        exact hword (by rw [h.1, h.2]; rfl)
      simp [Option.filter, hword, hother]

/-- Settings that can be run are written as a text from which settings are read that can be run. They are the same but for
the data model: one that is not set comes back as that of the preset where this has the word size of the settings. Another
target comes out only on 64-bit Windows. -/
theorem yamlText_reloads {p : Preset} {changes : List Change} {c : Valid}
    (h : ((ofPreset p).applyAll changes).validate = .ok c) :
    ∃ r : Valid, ofYamlText c.val.yamlText = .ok r ∧ r.val = c.val.refilled ∧
      (r = c ↔ c.val.model ≠ none ∨ p.model.wordSize ≠ c.val.wordSize) ∧
      (r.val.target = c.val.target ↔ c.val.model ≠ none ∨ c.val.wordSize ≠ 64 ∨ p ≠ .windowsX64) := by
  have hpreset : c.val.preset = p := by
    rw [val_of_validate h, preset_applyAll]
    rfl
  obtain ⟨r, hread, hrefilled⟩ := ofYamlText_yamlText c.property
  refine ⟨r, hread, hrefilled, ?_, ?_⟩
  · rw [← hpreset, ← refilled_eq_iff, ← hrefilled]
    exact Subtype.ext_iff
  · rw [← hpreset, ← target_refilled_iff, ← hrefilled]

/-- A preset for 64-bit targets whose word size is changed keeps that in its text. -/
theorem yamlText_reloads_linux32 : ∃ c r : Valid,
    ((ofPreset .linuxX64).applyAll [.wordSize 32, .threads 4]).validate = .ok c ∧ ofYamlText c.val.yamlText = .ok r ∧ r = c := by
  obtain ⟨c, hc, hval⟩ := validate_of_problem? (s := (ofPreset .linuxX64).applyAll [.wordSize 32, .threads 4]) (by decide)
  obtain ⟨r, hread, -, hsame, -⟩ := yamlText_reloads hc
  refine ⟨c, r, hc, hread, hsame.2 (.inr ?_)⟩
  rw [hval]
  decide

/-- On 64-bit Windows a word size that is changed and changed back gives another target after reading. -/
theorem yamlText_reloads_windowsTwice : ∃ c r : Valid,
    ((ofPreset .windowsX64).applyAll [.wordSize 32, .wordSize 64]).validate = .ok c ∧ ofYamlText c.val.yamlText = .ok r ∧
      r ≠ c ∧ c.val.target = ⟨.lp64, 2⟩ ∧ r.val.target = ⟨.llp64, 2⟩ := by
  obtain ⟨c, hc, hval⟩ := validate_of_problem? (s := (ofPreset .windowsX64).applyAll [.wordSize 32, .wordSize 64]) (by decide)
  obtain ⟨r, hread, hrefilled⟩ := ofYamlText_yamlText c.property
  have hbefore : c.val.target = ⟨.lp64, 2⟩ := by
    rw [hval]
    decide
  have hafter : r.val.target = ⟨.llp64, 2⟩ := by
    rw [hrefilled, hval]
    decide
  refine ⟨c, r, hc, hread, ?_, hbefore, hafter⟩
  rintro rfl
  rw [hbefore] at hafter
  exact absurd hafter (by decide)

end Settings

end FlowLint
