/-!
# Closed vocabularies

A vocabulary is a type of finitely many members, each with a word of its own. The words are how the members are written
in snapshots, settings and reports. `ofWord?_word` and `word_of_ofWord?` say that reading a word undoes writing it and
that nothing but the written words is read.
-/

namespace FlowLint

/-- A type whose members are listed and have distinct words. -/
class Vocabulary (α : Type) where
  members : List α
  word : α → String
  find_word : ∀ a, members.find? (fun b => word b == word a) = some a

namespace Vocabulary

variable {α : Type} [Vocabulary α]

/-- The member that a word stands for. -/
def ofWord? (w : String) : Option α :=
  (members : List α).find? (fun b => word b == w)

/-- Reading the word of a member gives the member. -/
@[simp] theorem ofWord?_word (a : α) : ofWord? (word a) = some a :=
  find_word a

/-- A word that is read is the word of the member it stands for. -/
theorem word_of_ofWord? {w : String} {a : α} (h : ofWord? w = some a) : word a = w := by
  have := List.find?_some h
  exact eq_of_beq this

/-- Every member is listed. -/
theorem mem_members (a : α) : a ∈ (members : List α) :=
  List.mem_of_find?_eq_some (find_word a)

/-- Distinct members have distinct words. -/
theorem word_injective {a b : α} (h : word a = word b) : a = b := by
  have ha := ofWord?_word a
  rw [h, ofWord?_word b] at ha
  exact (Option.some.inj ha).symm

end Vocabulary

end FlowLint
