import FlowLint.Proofs.Text.Digits
import FlowLint.Yaml

/-!
# YAML values that are written and read back

A number, a boolean and a word are read back from the scalar that they are written as (`uint32?_ofNat`, `uint64?_ofNat`,
`bool?_ofBool`, `word?_ofWord`), and from entries that may be left out each one is read back (`optional_entryIfAny`).
-/

namespace FlowLint.Yaml

/-! ## Scalars -/

theorem isNull?_plain {text : String} (hempty : text ≠ "") (hnull : text ∉ nullWords) :
    (plain text).isNull? = some false := by
  simp [plain, isNull?, hempty, hnull]

theorem toList_toString (n : Nat) : (toString n).toList = Nat.toDigits 10 n := by
  rw [Nat.toString_eq_repr, Nat.toList_repr]

theorem natOf?_toDigits (n : Nat) : natOf? (Nat.toDigits 10 n) = some n := by
  have hnumber := Text.number?_toDigits n
  by_cases hn : n = 0
  · subst hn
    rfl
  · have hhead := Text.head?_toDigits hn
    generalize Nat.toDigits 10 n = cs at hnumber hhead
    unfold natOf?
    split
    case h_6 => exact hnumber
    all_goals exact absurd rfl hhead

theorem nat?_ofNat {n bound : Nat} (h : n < bound) : (ofNat n).nat? bound = some n := by
  have hhead : (Nat.toDigits 10 n).head? ≠ some '+' := fun hplus => by
    have := Text.isDigit_of_mem_toDigits (List.mem_of_head? hplus)
    revert this
    decide
  simp only [nat?, ofNat, plain, typedText?, Option.bind_eq_bind, Option.bind_some, toList_toString]
  rw [if_neg hhead, natOf?_toDigits]
  simp [h]

theorem uint32?_ofNat (n : UInt32) : uint32? (ofNat n.toNat) = some n := by
  rw [uint32?, nat?_ofNat n.toNat_lt]
  simp

theorem uint64?_ofNat (n : UInt64) : uint64? (ofNat n.toNat) = some n := by
  rw [uint64?, nat?_ofNat n.toNat_lt]
  simp

theorem bool?_ofBool (b : Bool) : bool? (ofBool b) = some b := by
  cases b <;> rfl

theorem word?_ofWord {α : Type} [Vocabulary α] (a : α) : word? (ofWord a) = some a := by
  simp [word?, ofWord, plain, wordText?]

theorem isNull?_ofNat (n : Nat) : (ofNat n).isNull? = some false := by
  have hdigits : ∀ c ∈ (toString n).toList, c.isDigit = true := fun c hc =>
    Text.isDigit_of_mem_toDigits (toList_toString n ▸ hc)
  refine isNull?_plain (fun hempty => ?_) fun hnull => ?_
  · have htoDigits := toList_toString n
    rw [hempty] at htoDigits
    exact Nat.toDigits_ne_nil htoDigits.symm
  · have hwords : ∀ w ∈ nullWords, ∃ c ∈ w.toList, c.isDigit = false := by simp [nullWords]
    obtain ⟨c, hc, hother⟩ := hwords _ hnull
    rw [hdigits c hc] at hother
    cases hother

theorem isNull?_ofBool (b : Bool) : (ofBool b).isNull? = some false := by
  cases b <;> rfl

/-! ## Entries -/

/-- A mapping is read whose keys are some of those that are known, in the same order. -/
theorem entries?_of_sublist {entries : List (String × Yaml)} {keys : List String} (h : (entries.map (·.1)).Sublist keys)
    (hkeys : keys.Nodup) : (mapping entries).entries? keys = some entries := by
  have hall : (entries.map (·.1)).all keys.contains = true :=
    List.all_eq_true.2 fun key hkey => List.contains_iff_mem.2 (h.subset hkey)
  rw [entries?, if_pos ⟨hall, hkeys.sublist h⟩]

theorem keys_entryIfAny {α : Type} (key : String) (write : α → Yaml) (value : Option α) :
    ((entryIfAny key write value).map (·.1)).Sublist [key] := by
  cases value <;> simp [entryIfAny]

theorem keys_entryIfAny_append {α : Type} {rest : List (String × Yaml)} {keys : List String}
    (h : (rest.map (·.1)).Sublist keys) (key : String) (write : α → Yaml) (value : Option α) :
    ((entryIfAny key write value ++ rest).map (·.1)).Sublist (key :: keys) := by
  rw [List.map_append]
  exact (keys_entryIfAny key write value).append h

theorem optional_entryIfAny_of_ne {α β : Type} {key other : String} (h : other ≠ key) (write : β → Yaml) (value : Option β)
    (rest : List (String × Yaml)) (read : Yaml → Option α) :
    optional (entryIfAny other write value ++ rest) key read = optional rest key read := by
  cases value <;> simp [optional, entryIfAny, h]

theorem optional_nil {α : Type} (key : String) (read : Yaml → Option α) : optional [] key read = some none := rfl

/-- An entry is read back if its value does not stand for nothing; if it is left out, the entries behind it are searched. -/
theorem optional_entryIfAny {α : Type} {write : α → Yaml} {value : Option α} {read : Yaml → Option α}
    (hnull : ∀ a ∈ value, (write a).isNull? = some false) (hread : ∀ a ∈ value, read (write a) = some a) (key : String)
    (rest : List (String × Yaml)) :
    optional (entryIfAny key write value ++ rest) key read = value.elim (optional rest key read) (some ∘ some) := by
  cases value with
  | none => rfl
  | some a => simp [optional, entryIfAny, hnull a rfl, hread a rfl]

end FlowLint.Yaml
