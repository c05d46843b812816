import Mathlib.Data.List.Induction
import Mathlib.Order.Bounds.Defs
import Mathlib.Order.MinMax
import FlowLint.Text.EditDistance

/-!
# The edit distance counts edits

An edit puts a character into a text, takes one out, or replaces one. The distance of two texts is first given by recursion on
both (`distance`): it is the least number of edits that turn one text into the other (`distance_isLeast`), because a single edit
changes the distance from any text by at most one. Each row holds these distances for the prefixes of both texts, whatever was
in it before (`holds_behind`), so that the edit distance is the least number of edits, too (`editDistance_isLeast`).
-/

namespace FlowLint.Text

variable {u v w : List Char} {n : Nat} {c d : Char}

/-! ## Edits -/

/-- One edit turns a text into another one. -/
inductive Edit : List Char → List Char → Prop where
  | insert (u v : List Char) (c : Char) : Edit (u ++ v) (u ++ c :: v)
  | delete (u v : List Char) (c : Char) : Edit (u ++ c :: v) (u ++ v)
  | replace (u v : List Char) (c d : Char) : Edit (u ++ c :: v) (u ++ d :: v)

/-- So many edits, one after the other, turn a text into another one. -/
inductive Edits : Nat → List Char → List Char → Prop where
  | none (u : List Char) : Edits 0 u u
  | edit {n : Nat} {u v w : List Char} : Edit u v → Edits n v w → Edits (n + 1) u w

theorem Edit.cons (c : Char) (h : Edit u v) : Edit (c :: u) (c :: v) := by
  cases h with
  | insert u v d => exact .insert (c :: u) v d
  | delete u v d => exact .delete (c :: u) v d
  | replace u v d e => exact .replace (c :: u) v d e

theorem Edits.cons (c : Char) (h : Edits n u v) : Edits n (c :: u) (c :: v) := by
  induction h with
  | none => exact .none _
  | edit he _ ih => exact .edit (he.cons c) ih

/-- An edit at one end of a text is an edit of the reversed text at its other end. -/
theorem Edit.reverse (h : Edit u v) : Edit u.reverse v.reverse := by
  cases h with
  | insert u v c => simpa using Edit.insert v.reverse u.reverse c
  | delete u v c => simpa using Edit.delete v.reverse u.reverse c
  | replace u v c d => simpa using Edit.replace v.reverse u.reverse c d

theorem Edits.reverse (h : Edits n u v) : Edits n u.reverse v.reverse := by
  induction h with
  | none => exact .none _
  | edit he _ ih => exact .edit he.reverse ih

theorem edits_reverse_iff : Edits n u.reverse v.reverse ↔ Edits n u v := by
  refine ⟨fun h => ?_, Edits.reverse⟩
  simpa using h.reverse

/-! ## The distance by recursion -/

/-- The distance of two texts: the first character of one of them is taken out or put in, or the first one replaces the other. -/
def distance : List Char → List Char → Nat
  | [], v => v.length
  | u, [] => u.length
  | c :: u, d :: v => min (min (distance u (d :: v) + 1) (distance (c :: u) v + 1)) (distance u v + if c = d then 0 else 1)
termination_by u v => u.length + v.length

@[simp] theorem distance_nil_left (v : List Char) : distance [] v = v.length := by
  rw [distance]

@[simp] theorem distance_nil_right (u : List Char) : distance u [] = u.length := by
  cases u <;> simp [distance]

theorem distance_cons_cons (c d : Char) (u v : List Char) :
    distance (c :: u) (d :: v) =
      min (min (distance u (d :: v) + 1) (distance (c :: u) v + 1)) (distance u v + if c = d then 0 else 1) := by
  rw [distance]

theorem distance_self (u : List Char) : distance u u = 0 := by
  induction u with
  | nil => simp
  | cons c u ih => simp [distance_cons_cons, ih]

theorem edits_nil_left (v : List Char) : Edits v.length [] v := by
  induction v with
  | nil => exact .none []
  | cons d v ih => exact .edit (.insert [] [] d) (ih.cons d)

theorem edits_nil_right (u : List Char) : Edits u.length u [] := by
  induction u with
  | nil => exact .none []
  | cons c u ih => exact .edit (.delete [] u c) ih

/-- A text can be turned into another one by as many edits as their distance. -/
theorem edits_distance (u v : List Char) : Edits (distance u v) u v := by
  induction u, v using distance.induct with
  | case1 v => simpa using edits_nil_left v
  | case2 u _ => simpa using edits_nil_right u
  | case3 c u d v hdelete hinsert hreplace =>
    rw [distance_cons_cons]
    rcases min_choice (min (distance u (d :: v) + 1) (distance (c :: u) v + 1)) (distance u v + if c = d then 0 else 1)
      with h | h
    · rw [h]
      rcases min_choice (distance u (d :: v) + 1) (distance (c :: u) v + 1) with h | h
      · rw [h]
        exact .edit (.delete [] u c) hdelete
      · rw [h]
        -- The new character is put in first; all other edits are made behind it.
        exact .edit (.insert [] (c :: u) d) (hinsert.cons d)
    · rw [h]
      by_cases hcd : c = d
      · subst hcd
        simpa using hreplace.cons c
      · rw [if_neg hcd]
        exact .edit (.replace [] u c d) (hreplace.cons d)

/-! ## One edit changes the distance by at most one -/

theorem distance_cons_le (c : Char) (u w : List Char) : distance (c :: u) w ≤ distance u w + 1 := by
  cases w with
  | nil => simp
  | cons e w =>
    rw [distance_cons_cons]
    omega

theorem distance_cons_right_le (d : Char) (u w : List Char) : distance u (d :: w) ≤ distance u w + 1 := by
  cases u with
  | nil => simp
  | cons c u =>
    rw [distance_cons_cons]
    omega

theorem le_distance_cons (c : Char) (u w : List Char) : distance u w ≤ distance (c :: u) w + 1 := by
  -- `c` may be put in the place of a character of `w`, or stand behind some that are put in: the second case needs the induction.
  induction w with
  | nil =>
    simp only [distance_nil_right, List.length_cons]
    omega
  | cons e w ih =>
    have := distance_cons_right_le e u w
    rw [distance_cons_cons]
    omega

theorem distance_cons_le_cons (c d : Char) (u w : List Char) : distance (c :: u) w ≤ distance (d :: u) w + 1 := by
  induction w with
  | nil => simp
  | cons e w ih =>
    rw [distance_cons_cons, distance_cons_cons]
    split <;> split <;> omega

/-- If the distances of two texts from any text differ by at most one, this stays so with the same character in front of both. -/
theorem distance_cons_mono (c : Char) (h : ∀ w, distance u w ≤ distance v w + 1) (w : List Char) :
    distance (c :: u) w ≤ distance (c :: v) w + 1 := by
  induction w with
  | nil =>
    have := h []
    simp only [distance_nil_right, List.length_cons] at this ⊢
    omega
  | cons e w ih =>
    have hdelete := h (e :: w)
    have hreplace := h w
    rw [distance_cons_cons, distance_cons_cons]
    omega

/-- The prefix in front of an edit is passed character by character. -/
theorem distance_append_mono (p : List Char) (h : ∀ w, distance u w ≤ distance v w + 1) :
    ∀ w, distance (p ++ u) w ≤ distance (p ++ v) w + 1 := by
  induction p with
  | nil => exact h
  | cons c p ih => exact distance_cons_mono c ih

theorem distance_le_of_edit (h : Edit u v) (w : List Char) : distance u w ≤ distance v w + 1 := by
  cases h with
  | insert p v c => exact distance_append_mono p (le_distance_cons c v) w
  | delete p v c => exact distance_append_mono p (distance_cons_le c v) w
  | replace p v c d => exact distance_append_mono p (distance_cons_le_cons c d v) w

/-- No fewer edits than the distance turn a text into another one. -/
theorem distance_le_of_edits (h : Edits n u v) : distance u v ≤ n := by
  induction h with
  | none u => exact Nat.le_of_eq (distance_self u)
  | edit he _ ih => exact Nat.le_trans (distance_le_of_edit he _) (Nat.add_le_add_right ih 1)

/-- The distance of two texts is the least number of edits that turn one into the other. -/
theorem distance_isLeast (u v : List Char) : IsLeast {n | Edits n u v} (distance u v) :=
  ⟨edits_distance u v, fun _ h => distance_le_of_edits h⟩

/-! ## The rows -/

/-- A row holds the distances of a text from the first prefixes of another one, up to place `k`. The recursion takes the last
characters first, so that the distance is that of the reversed texts. -/
def Holds (b : Array Char) (u : List Char) (k : Nat) (row : Row b.size) : Prop :=
  ∀ j (_ : j ≤ k) (hj : j < b.size + 1), row[j] = distance u.reverse (b.toList.take j).reverse

variable {b : Array Char} {above row : Row b.size}

theorem reverse_take_succ {j : Nat} (hj : j < b.size) : (b.toList.take (j + 1)).reverse = b[j] :: (b.toList.take j).reverse := by
  rw [List.take_succ_eq_append_getElem (by simpa using hj), List.reverse_append]
  simp

/-- Filling one more place keeps the places in front, and the new place holds the distance of its prefix. -/
theorem holds_fillPlace (habove : Holds b u b.size above) (j : Fin b.size) (h : Holds b (u ++ [c]) j row) :
    Holds b (u ++ [c]) (j + 1) (fillPlace b c above row j) := by
  intro i hi hlt
  unfold fillPlace
  by_cases hij : i = j.val + 1
  · subst hij
    have hup := habove (j + 1) (by omega) (by omega)
    have hdiagonal := habove j (by omega) (by omega)
    have hleft := h j (Nat.le_refl _) (by omega)
    rw [reverse_take_succ j.isLt] at hup
    rw [List.reverse_append, List.reverse_singleton, List.singleton_append] at hleft
    rw [Vector.getElem_set_self, reverse_take_succ j.isLt, List.reverse_append, List.reverse_singleton, List.singleton_append,
      distance_cons_cons, hup, hdiagonal, hleft, Fin.getElem_fin]
  · rw [Vector.getElem_set_ne _ _ (Ne.symm hij)]
    exact h i (by omega) hlt

/-- The row of a text that is one character longer is filled, whatever the spare row held before. -/
theorem holds_read {rows : Rows b.size} (h : Holds b u b.size rows.filled) :
    Holds b (u ++ [c]) b.size (rows.read b (c, u.length)).filled := by
  have hfirst : Holds b (u ++ [c]) 0 (rows.spare.set 0 (u.length + 1)) := by
    intro j hj _
    obtain rfl := Nat.le_zero.1 hj
    simp
  have hrow := Array.foldl_induction (Holds b (u ++ [c])) hfirst (f := fillPlace b c rows.filled)
    fun (j : Fin (Array.finRange b.size).size) row hrow => by
      simpa using holds_fillPlace h (j.cast Array.size_finRange) hrow
  simpa [Rows.read] using hrow

/-- The rows behind a text that is one character longer. -/
theorem behind_append_singleton (a : List Char) (b : Array Char) (c : Char) :
    Rows.behind (a ++ [c]) b = (Rows.behind a b).read b (c, a.length) := by
  simp [Rows.behind, List.zipIdx_append]

/-- Behind a text the filled row holds its distances from all prefixes of the other one. -/
theorem holds_behind (a : List Char) (b : Array Char) : Holds b a b.size (Rows.behind a b).filled := by
  induction a using List.reverseRecOn with
  | nil =>
    intro j hj hlt
    simp [Rows.behind, Rows.start, hj]
  | append_singleton a c ih =>
    rw [behind_append_singleton]
    exact holds_read ih

/-- The edit distance of two texts is the least number of edits that turn one into the other. -/
theorem editDistance_isLeast (s t : String) : IsLeast {n | Edits n s.toList t.toList} (editDistance s t) := by
  have hrow := holds_behind s.toList t.toList.toArray _ (Nat.le_refl _) (Nat.lt_succ_self _)
  have heq : editDistance s t = distance s.toList.reverse t.toList.reverse := by
    simpa [editDistance] using hrow
  rw [heq]
  simpa only [edits_reverse_iff] using distance_isLeast s.toList.reverse t.toList.reverse

example : editDistance "kitten" "sitting" = 3 := by cbv

end FlowLint.Text
