import FlowLint.CType.Codec
import FlowLint.Proofs.Json.Fields

/-!
# Types that are read back

A written type is read back to the same type, by itself and within a value that is read as a whole (`read_toJson`). Its kind stands
in front of its parts, so that the parts are read as what they are.
-/

namespace FlowLint.CType

open Json

theorem readable_toJson (t : CType) : t.toJson.readable = true := by
  induction t with
  | pointer t ih | reference t ih => simp [toJson, readable, readableFields, ih]
  | array t n ih => cases n <;> simp [toJson, readable, readableFields, ofOption, ofNat, ih]
  | _ => rfl

@[simp] theorem parts?_kind (kind : String) : parts? [("kind", .string kind)] = some none := by
  simp [parts?, partsInOrder]

/-- Parts behind the kind may be anything. -/
@[simp] theorem parts?_kind_of (kind : String) (v : Json) :
    parts? [("kind", .string kind), ("of", v)] = some (some v) := by
  simp [parts?, partsInOrder]

/-- A written type is read back, if the reader goes as deep as the type is nested. -/
theorem read_toJson (t : CType) (whole : Bool) {fuel : Nat} (h : t.toJson.depth < fuel) :
    read fuel whole t.toJson = some t := by
  induction fuel generalizing t with
  | zero => exact absurd h (Nat.not_lt_zero _)
  | succ fuel ih =>
    cases t with
    | void | bool | nullptr | unknown => simp [toJson, read, plain]
    | char c | int c | float c => simp [toJson, read]
    | record name | enum name => simp [toJson, read]
    | pointer t | reference t =>
      have ht := ih t (by simp only [toJson, depth, depthFields] at h; omega)
      simp [toJson, read, partsFirst, ht]
    | array t n =>
      have ht := ih t (by simp only [toJson, depth, depthFields] at h; omega)
      have hn : nullable? uint64? (ofOption (fun n => ofNat n.toNat) n) = some n :=
        nullable?_ofOption (by simp [ofNat]) (by simp)
      simp [toJson, read, partsFirst, ht, hn]

@[simp] theorem ofJson?_toJson (t : CType) : ofJson? t.toJson = some t :=
  t.read_toJson false (Nat.lt_succ_self _)

@[simp] theorem ofWhole?_toJson (t : CType) : ofWhole? t.toJson = some t :=
  t.read_toJson true (Nat.lt_succ_self _)

end FlowLint.CType
