import FlowLint.Flow.Liveness
import FlowLint.Proofs.Flow.Graph

/-!
# Where control can arrive

`Arrives` is the least relation that the rules of control flow generate, without a search: control starts at the entry and at
the labels of a `switch`, passes from statement to statement, and is handed over by jumps. A `goto` whose target block holds its
label lands there; `LandsOn` says so, and `landing?` computes it (`landsOn_iff`).
-/

namespace FlowLint.Flow

/-- Where control can be: at the start of a block, at a statement, or behind the last statement of a block. -/
inductive Spot where
  | start (b : Nat)
  | statement (p : Point)
  | finish (b : Nat)
deriving DecidableEq, Repr

/-- The name of a label for `goto`. -/
def userLabel? (s : Statement) : Option String :=
  match s.action with
  | .label name .user => some name
  | _ => none

theorem userLabel?_eq_some_iff {s : Statement} {name : String} :
    userLabel? s = some name ↔ s.action = .label name .user := by
  unfold userLabel?
  split
  · rename_i n h
    rw [h]
    simp
  · rename_i h
    simpa using h name

theorem isUserLabel_iff {s : Statement} {name : String} : isUserLabel name s = true ↔ userLabel? s = some name := by
  rw [userLabel?_eq_some_iff]
  unfold isUserLabel
  split
  · rename_i n h
    rw [h]
    simp
  · rename_i h
    simpa using h name

namespace Graph

/-- The name of the label for `goto` at a place. -/
def labelAt? (g : Graph) (p : Point) : Option String := (g.statement? p).bind userLabel?

/-- No name labels two statements. -/
def LabelsUnique (g : Graph) : Prop :=
  ∀ p q name, g.labelAt? p = some name → g.labelAt? q = some name → p = q

/-- A `goto` whose target block is `t` lands on a label of its name there. -/
def LandsOn (g : Graph) (s : Statement) (t : Nat) (q : Point) : Prop :=
  q.block = t ∧ ∃ j name, s.action = .jump j ∧ j.kind = .goto ∧ j.label = some name ∧ g.labelAt? q = some name

end Graph

/-- Control can arrive at a spot. -/
inductive Arrives (g : Graph) : Spot → Prop where
  | entry : Arrives g (.start g.entry)
  | switchLabel {p : Point} {s : Statement} :
      g.statement? p = some s → isSwitchLabel s = true → Arrives g (.statement p)
  | first {b : Nat} {s : Statement} :
      Arrives g (.start b) → g.statement? ⟨b, 0⟩ = some s → Arrives g (.statement ⟨b, 0⟩)
  | next {b i : Nat} {s s' : Statement} :
      Arrives g (.statement ⟨b, i⟩) → g.statement? ⟨b, i⟩ = some s → s.asJump = none →
        g.statement? ⟨b, i + 1⟩ = some s' → Arrives g (.statement ⟨b, i + 1⟩)
  | land {p q : Point} {s : Statement} {t : Nat} :
      Arrives g (.statement p) → g.statement? p = some s → g.destination? s = some t → g.LandsOn s t q →
        Arrives g (.statement q)
  | enter {p : Point} {s : Statement} {t : Nat} :
      Arrives g (.statement p) → g.statement? p = some s → g.destination? s = some t → (∀ q, ¬g.LandsOn s t q) →
        Arrives g (.start t)
  | behindNothing {b : Nat} : Arrives g (.start b) → g.statements b = [] → Arrives g (.finish b)
  | behindLast {b i : Nat} {s : Statement} :
      Arrives g (.statement ⟨b, i⟩) → g.statement? ⟨b, i⟩ = some s → s.asJump = none →
        i + 1 = (g.statements b).length → Arrives g (.finish b)
  | successor {b t : Nat} : Arrives g (.finish b) → t ∈ g.successors b → Arrives g (.start t)

namespace Graph

variable {g : Graph}

/-- Labelled places are places of statements. -/
theorem labelAt?_eq_some_iff {p : Point} {name : String} :
    g.labelAt? p = some name ↔ ∃ s, g.statement? p = some s ∧ userLabel? s = some name := by
  unfold labelAt?
  exact Option.bind_eq_some_iff

/-- It is enough to compare the labels at the points of the graph. -/
theorem labelsUnique_iff : g.LabelsUnique ↔
    ∀ p ∈ g.points, ∀ q ∈ g.points, (g.labelAt? p).isSome → g.labelAt? p = g.labelAt? q → p = q := by
  constructor
  · intro h p _ q _ hp hpq
    obtain ⟨name, hname⟩ := Option.isSome_iff_exists.1 hp
    exact h p q name hname (hpq ▸ hname)
  · intro h p q name hp hq
    obtain ⟨s, hs, -⟩ := labelAt?_eq_some_iff.1 hp
    obtain ⟨s', hs', -⟩ := labelAt?_eq_some_iff.1 hq
    exact h p (mem_points.2 ⟨s, hs⟩) q (mem_points.2 ⟨s', hs'⟩) (hp ▸ rfl) (hp.trans hq.symm)

instance (g : Graph) : Decidable g.LabelsUnique := decidable_of_iff _ labelsUnique_iff.symm

/-- A block holds a label exactly if one of its places has it. -/
theorem any_isUserLabel_iff {t : Nat} {name : String} :
    (g.statements t).any (isUserLabel name) = true ↔ ∃ q : Point, q.block = t ∧ g.labelAt? q = some name := by
  rw [List.any_eq_true]
  constructor
  · rintro ⟨l, hl, hn⟩
    obtain ⟨i, hi⟩ := exists_index hl
    exact ⟨⟨t, i⟩, rfl, labelAt?_eq_some_iff.2 ⟨l, hi, isUserLabel_iff.1 hn⟩⟩
  · rintro ⟨q, rfl, hq⟩
    obtain ⟨l, hl, hn⟩ := labelAt?_eq_some_iff.1 hq
    exact ⟨l, mem_statements hl, isUserLabel_iff.2 hn⟩

/-- The landing of a jump is the name of a `goto`, if its target block holds the label. -/
theorem landing?_eq_some_iff {s : Statement} {t : Nat} {name : String} :
    g.landing? s t = some name ↔
      (∃ j, s.action = .jump j ∧ j.kind = .goto ∧ j.label = some name) ∧ ∃ q : Point, q.block = t ∧ g.labelAt? q = some name := by
  rw [← any_isUserLabel_iff]
  unfold landing?
  split
  · rename_i j hj
    split
    · rename_i hk
      rw [Option.filter_eq_some_iff]
      simp [hj, hk]
    · rename_i hk
      simp [hj, hk]
  · rename_i hj
    constructor
    · intro h
      cases h
    · rintro ⟨⟨j, h, -⟩, -⟩
      exact absurd h (hj j)

/-- A jump lands on the labels of the name that is its landing. -/
theorem landsOn_iff {s : Statement} {t : Nat} {q : Point} :
    g.LandsOn s t q ↔ q.block = t ∧ ∃ name, g.landing? s t = some name ∧ g.labelAt? q = some name := by
  unfold LandsOn
  constructor
  · rintro ⟨hq, j, name, hj, hk, hl, hn⟩
    exact ⟨hq, name, landing?_eq_some_iff.2 ⟨⟨j, hj, hk, hl⟩, q, hq, hn⟩, hn⟩
  · rintro ⟨hq, name, hl, hn⟩
    obtain ⟨⟨j, hj, hk, hname⟩, -⟩ := landing?_eq_some_iff.1 hl
    exact ⟨hq, j, name, hj, hk, hname, hn⟩

/-- A jump without a landing lands nowhere. -/
theorem landing?_eq_none_iff {s : Statement} {t : Nat} : g.landing? s t = none ↔ ∀ q, ¬g.LandsOn s t q := by
  constructor
  · intro h q hq
    obtain ⟨-, name, hn, -⟩ := landsOn_iff.1 hq
    rw [h] at hn
    cases hn
  · intro h
    cases hl : g.landing? s t with
    | none => rfl
    | some name =>
      obtain ⟨-, q, hq, hn⟩ := landing?_eq_some_iff.1 hl
      exact absurd (landsOn_iff.2 ⟨hq, name, hl, hn⟩) (h q)

/-! ## Control in front of a statement -/

/-- Control comes to an index of a block from in front: the index is the first one and the block is entered, or control is at
the statement before, which is no jump. -/
def ComesTo (g : Graph) (b : Nat) (entered : Prop) (live : Nat → Prop) (i : Nat) : Prop :=
  (i = 0 ∧ entered) ∨ ∃ j s, i = j + 1 ∧ live j ∧ g.statement? ⟨b, j⟩ = some s ∧ s.asJump = none

/-- What comes to an index depends on the statements in front of it alone. -/
theorem ComesTo.imp {b i : Nat} {entered entered' : Prop} {live live' : Nat → Prop} (h : g.ComesTo b entered live i)
    (hentered : entered → entered') (hlive : ∀ j < i, live j → live' j) : g.ComesTo b entered' live' i := by
  rcases h with ⟨rfl, h⟩ | ⟨j, s, rfl, h, hs⟩
  · exact .inl ⟨rfl, hentered h⟩
  · exact .inr ⟨j, s, rfl, hlive j (Nat.lt_succ_self j) h, hs⟩

/-- Control comes to an index by the rules. -/
abbrev ArrivesInFront (g : Graph) (b i : Nat) : Prop :=
  g.ComesTo b (Arrives g (.start b)) (fun j => Arrives g (.statement ⟨b, j⟩)) i

/-- Control that comes to the index of a statement arrives at it. -/
theorem arrives_of_inFront {b i : Nat} {s : Statement} (h : g.ArrivesInFront b i) (hs : g.statement? ⟨b, i⟩ = some s) :
    Arrives g (.statement ⟨b, i⟩) := by
  rcases h with ⟨rfl, h⟩ | ⟨j, x, rfl, h, hx, hn⟩
  · exact .first h hs
  · exact .next h hx hn hs

/-- Control that comes behind the last statement arrives at the end. -/
theorem arrives_finish_of_inFront {b : Nat} (h : g.ArrivesInFront b (g.statements b).length) : Arrives g (.finish b) := by
  rcases h with ⟨hb, h⟩ | ⟨j, s, hj, h, hs, hn⟩
  · exact .behindNothing h (List.eq_nil_of_length_eq_zero hb)
  · exact .behindLast h hs hn hj.symm

end Graph

end FlowLint.Flow
