import Mathlib.Tactic.IntervalCases
import FlowLint.Text.Digits

/-!
# Digits that are read back

A number is read back from its decimal digits, and what is below sixteen from its hexadecimal one. The digits of a number start with
a zero only if it is zero.
-/

namespace FlowLint.Text

theorem digit?_of_isDigit {c : Char} (h : c.isDigit = true) : digit? 10 c = some (c.toNat - '0'.toNat) := by
  simp only [Char.isDigit, ge_iff_le, Bool.and_eq_true, decide_eq_true_eq] at h
  have hle : c.toNat - '0'.toNat < 10 := by
    have := UInt32.le_iff_toNat_le.1 h.2
    change c.toNat ≤ 57 at this
    change c.toNat - 48 < 10
    omega
  unfold digit?
  rw [if_pos ⟨Char.le_def.2 h.1, Char.le_def.2 h.2⟩]
  simpa using hle

/-- Decimal digits are the number that they stand for. -/
theorem number?_digits {cs : List Char} (hne : cs ≠ []) (h : ∀ c ∈ cs, c.isDigit = true) :
    number? 10 cs = some (Nat.ofDigitChars 10 cs 0) := by
  have hfold : ∀ n, cs.foldlM (fun n c => (digit? 10 c).map (n * 10 + ·)) n = some (Nat.ofDigitChars 10 cs n) := by
    clear hne
    induction cs with
    | nil => exact fun n => rfl
    | cons c cs ih =>
      intro n
      rw [List.forall_mem_cons] at h
      rw [List.foldlM_cons, digit?_of_isDigit h.1, Nat.ofDigitChars_cons, Nat.mul_comm 10 n]
      exact ih h.2 _
  unfold number?
  rw [if_neg (by simpa using hne)]
  exact hfold 0

theorem isDigit_of_mem_toDigits {n : Nat} {c : Char} (h : c ∈ Nat.toDigits 10 n) : c.isDigit = true :=
  Nat.isDigit_of_mem_toDigits (by decide) (by decide) h

theorem number?_toDigits (n : Nat) : number? 10 (Nat.toDigits 10 n) = some n := by
  rw [number?_digits Nat.toDigits_ne_nil fun c hc => isDigit_of_mem_toDigits hc, Nat.ofDigitChars_ten_toDigits]

/-- The digits of a number start with a digit. -/
theorem exists_toDigits_eq_cons (n : Nat) : ∃ c cs, Nat.toDigits 10 n = c :: cs ∧ c.isDigit = true := by
  obtain ⟨c, cs, h⟩ := List.exists_cons_of_ne_nil (Nat.toDigits_ne_nil (n := n) (b := 10))
  exact ⟨c, cs, h, isDigit_of_mem_toDigits (h ▸ List.mem_cons_self)⟩

/-- Only zero is written with a zero in front. -/
theorem head?_toDigits {n : Nat} (h : n ≠ 0) : (Nat.toDigits 10 n).head? ≠ some '0' := by
  induction n using Nat.strong_induction_on with
  | _ n ih =>
    rw [Nat.toDigits_eq_if (by decide)]
    split
    · interval_cases n <;> simp_all
    · have hfront := ih (n / 10) (by omega) (by omega)
      rw [List.head?_append]
      cases hc : (Nat.toDigits 10 (n / 10)).head? with
      | none => exact absurd (List.head?_eq_none_iff.1 hc) Nat.toDigits_ne_nil
      | some c => simpa [hc] using hfront

/-- A hexadecimal digit is read as what it stands for. -/
theorem digit?_digitChar : ∀ n < 16, digit? 16 (Nat.digitChar n) = some n := by
  decide

end FlowLint.Text
