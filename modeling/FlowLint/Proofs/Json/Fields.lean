import FlowLint.Json

/-!
# What is written is read back

A field that an object gives once is found under its key, whatever fields stand around it (`required_cons`, `defaulted_cons`), so
that an object is read back field by field. Numbers, words, lists and values that may be
absent are read back from what is written for them.
-/

namespace FlowLint.Json

variable {α : Type} {fields : List (String × Json)} {key k : String} {v : Json} {read : Json → Option α} {default : α}

/-! ## Fields -/

@[simp] theorem valuesOf_nil : valuesOf key [] = [] := by
  simp [valuesOf]

@[simp] theorem valuesOf_cons :
    valuesOf key ((k, v) :: fields) = if k = key then v :: valuesOf key fields else valuesOf key fields := by
  by_cases h : k = key <;> simp [valuesOf, h]

/-- A required field is read where its key stands, if it stands nowhere else. -/
@[simp] theorem required_cons : required ((k, v) :: fields) key read =
    if k = key then if valuesOf key fields = [] then read v else none else required fields key read := by
  by_cases h : k = key
  · cases hfields : valuesOf key fields <;> simp [required, h, hfields]
  · simp [required, h]

@[simp] theorem defaulted_nil : defaulted [] key default read = some default := rfl

/-- A field with a default is read where its key stands, if it stands nowhere else. -/
@[simp] theorem defaulted_cons : defaulted ((k, v) :: fields) key default read =
    if k = key then if valuesOf key fields = [] then read v else none else defaulted fields key default read := by
  by_cases h : k = key
  · cases hfields : valuesOf key fields <;> simp [defaulted, h, hfields]
  · simp [defaulted, h]

@[simp] theorem optional_eq : optional fields key read = defaulted fields key none (nullable? read) := rfl

/-! ## Scalars -/

@[simp] theorem fields?_object : (object fields).fields? = some fields := rfl

@[simp] theorem bool?_bool (b : Bool) : (bool b).bool? = some b := rfl

@[simp] theorem string?_string (s : String) : (string s).string? = some s := rfl

@[simp] theorem binary64?_float (x : Binary64) : (float x).binary64? = some x := rfl

@[simp] theorem name?_string (whole : Bool) (s : String) : (string s).name? whole = some s := rfl

/-- A number below the bound is read back. -/
theorem nat?_ofNat {n bound : Nat} (h : n < bound) : (ofNat n).nat? bound = some n := by
  have hn : (0 : Int) ≤ n ∧ (n : Int) < bound := by omega
  simp only [ofNat, nat?, if_pos hn, Int.toNat_natCast]

@[simp] theorem uint32?_ofNat_toNat (n : UInt32) : (ofNat n.toNat).uint32? = some n := by
  rw [uint32?, nat?_ofNat n.toNat_lt, Option.map_some, UInt32.ofNat_toNat]

@[simp] theorem uint64?_ofNat_toNat (n : UInt64) : (ofNat n.toNat).uint64? = some n := by
  rw [uint64?, nat?_ofNat n.toNat_lt, Option.map_some, UInt64.ofNat_toNat]

@[simp] theorem int64?_toInt (n : Int64) : (int n.toInt).int64? = some n := by
  have hn : Int64.minValue.toInt ≤ n.toInt ∧ n.toInt ≤ Int64.maxValue.toInt := ⟨n.minValue_le_toInt, n.toInt_le⟩
  rw [int64?, if_pos hn, Int64.ofInt_toInt]

/-! ## Values that may be absent, and lists -/

/-- A value that may be absent is read back if its values are and none of them is written as `null`. -/
theorem nullable?_ofOption {write : α → Json} {o : Option α} (hnull : ∀ a ∈ o, write a ≠ .null)
    (hread : ∀ a ∈ o, read (write a) = some a) : nullable? read (ofOption write o) = some o := by
  cases o with
  | none => rfl
  | some a =>
    have hread := hread a rfl
    have hnull := hnull a rfl
    unfold ofOption nullable?
    split
    · rename_i h
      exact absurd h hnull
    · simp [hread]

/-- Items are read back one by one. -/
theorem mapM_map {write : α → Json} {as : List α} (h : ∀ a ∈ as, read (write a) = some a) :
    (as.map write).mapM read = some as := by
  induction as with
  | nil => rfl
  | cons a as ih =>
    have hhead := h a List.mem_cons_self
    have htail := ih fun b hb => h b (List.mem_cons_of_mem a hb)
    simp [hhead, htail]

/-- A list is read back if its items are. -/
theorem list?_ofList {write : α → Json} {as : List α} (h : ∀ a ∈ as, read (write a) = some a) :
    list? read (ofList write as) = some as :=
  mapM_map h

/-- A field that is left out if the list is empty is found under its own key only. -/
@[simp] theorem valuesOf_fieldUnlessEmpty {other : String} (h : other ≠ key) (write : α → Json) (as : List α) :
    valuesOf key (fieldUnlessEmpty other write as) = [] := by
  cases as <;> simp [fieldUnlessEmpty, h]

/-- A field that is left out if the list is empty is read back as the list. -/
theorem defaulted_fieldUnlessEmpty {write : α → Json} {as : List α} (h : ∀ a ∈ as, read (write a) = some a) :
    defaulted (fieldUnlessEmpty key write as) key [] (list? read) = some as := by
  cases as with
  | nil => rfl
  | cons a as => simp [fieldUnlessEmpty, list?_ofList h]

/-! ## Readable values -/

theorem readableItems_eq (vs : List Json) : readableItems vs = vs.all readable := by
  induction vs with
  | nil => rfl
  | cons v vs ih => simp [readableItems, ih]

/-- A list is readable if its items are. -/
theorem readable_ofList {write : α → Json} {as : List α} (h : ∀ a ∈ as, (write a).readable = true) :
    (ofList write as).readable = true := by
  simpa [ofList, readable, readableItems_eq] using h

/-- A value that may be absent is readable if it is when it is there. -/
theorem readable_ofOption {write : α → Json} {o : Option α} (h : ∀ a ∈ o, (write a).readable = true) :
    (ofOption write o).readable = true := by
  cases o with
  | none => rfl
  | some a => exact h a rfl

end FlowLint.Json
