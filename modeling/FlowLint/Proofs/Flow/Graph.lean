import FlowLint.Flow.Graph

/-!
# Facts about flow graphs

In a function without faults every block that is named has a position: the entry (`entry_lt`), the successors
(`lt_of_mem_successors`) and the targets of jumps (`lt_of_destination?`). `mem_arcs` and `mem_incoming` say which arcs there are.
-/

namespace FlowLint.Flow

/-- A position is that of a block. -/
theorem position?_lt {f : Function} {b : BlockId} {i : Nat} (h : position? f b = some i) : i < f.blocks.length := by
  unfold position? at h
  obtain ⟨hi, -⟩ := List.findIdx?_eq_some_iff_getElem.1 h
  exact hi

/-- Functions whose blocks have the same numbers in the same order have the same positions. -/
theorem position?_congr {f f' : Function} (h : f'.blocks.map Block.id = f.blocks.map Block.id) (b : BlockId) :
    position? f' b = position? f b := by
  have hids : ∀ f : Function, position? f b = (f.blocks.map Block.id).findIdx? (· == b) := fun f => by
    rw [List.findIdx?_map]
    rfl
  rw [hids, hids, h]

namespace Graph

/-- The entry of a graph is the position of the block that its function names. -/
theorem position?_entry (g : Graph) : position? g.function g.function.entry = some g.entry := by
  have h := g.faultless
  unfold fault? at h
  split at h
  · cases h
  · simp only [Option.orElse_eq_orElse, Option.orElse_eq_or, Option.or_eq_none_iff] at h
    obtain ⟨-, hentry, -, -⟩ := h
    split at hentry
    · rename_i hsome
      obtain ⟨i, hi⟩ := Option.isSome_iff_exists.1 hsome
      unfold entry
      rw [hi]
      rfl
    · cases hentry

/-- The entry of a graph is one of its blocks. -/
theorem entry_lt (g : Graph) : g.entry < g.size := position?_lt g.position?_entry

/-- The successors of a block are blocks. -/
theorem lt_of_mem_successors {g : Graph} {b t : Nat} (h : t ∈ g.successors b) : t < g.size := by
  unfold successors at h
  obtain ⟨x, -, hx⟩ := List.mem_filterMap.1 h
  exact position?_lt hx

/-- What a statement jumps to is a block. -/
theorem lt_of_destination? {g : Graph} {s : Statement} {t : Nat} (h : g.destination? s = some t) : t < g.size := by
  unfold destination? at h
  split at h
  · split at h
    · cases h
    · obtain ⟨x, -, hx⟩ := Option.bind_eq_some_iff.1 h
      exact position?_lt hx
  · cases h

/-- Graphs of functions whose blocks have the same numbers have the same destinations. -/
theorem destination?_congr {g g' : Graph} (h : g'.function.blocks.map Block.id = g.function.blocks.map Block.id)
    (s : Statement) : g'.destination? s = g.destination? s := by
  unfold destination?
  rw [funext (position?_congr h)]

/-- They have the same entry, if the functions name the same block. -/
theorem entry_congr {g g' : Graph} (h : g'.function.blocks.map Block.id = g.function.blocks.map Block.id)
    (hentry : g'.function.entry = g.function.entry) : g'.entry = g.entry := by
  unfold entry
  rw [hentry, position?_congr h]

/-- Only jumps have a destination. -/
theorem asJump_of_destination? {g : Graph} {s : Statement} {t : Nat} (h : g.destination? s = some t) :
    s.asJump.isSome = true := by
  rcases s with ⟨action, span⟩
  cases action with
  | jump j => rfl
  | _ => cases h

/-- Behind the last block there are no statements. -/
theorem statements_eq_nil {g : Graph} {b : Nat} (h : g.size ≤ b) : g.statements b = [] := by
  unfold statements
  rw [List.getElem?_eq_none (by exact h)]
  rfl

/-- The block of a statement is a block. -/
theorem block_lt {g : Graph} {p : Point} {s : Statement} (h : g.statement? p = some s) : p.block < g.size := by
  by_cases hp : p.block < g.size
  · exact hp
  · unfold statement? at h
    rw [statements_eq_nil (Nat.le_of_not_lt hp)] at h
    cases h

/-- A place in a block holds a statement of the block. -/
theorem mem_statements {g : Graph} {p : Point} {s : Statement} (h : g.statement? p = some s) : s ∈ g.statements p.block :=
  List.mem_of_getElem? h

/-- The index of a statement is below the length of its block. -/
theorem index_lt {g : Graph} {p : Point} {s : Statement} (h : g.statement? p = some s) :
    p.index < (g.statements p.block).length := by
  obtain ⟨hi, -⟩ := List.getElem?_eq_some_iff.1 h
  exact hi

/-- A statement of a block has a place in it. -/
theorem exists_index {g : Graph} {b : Nat} {s : Statement} (h : s ∈ g.statements b) : ∃ i, g.statement? ⟨b, i⟩ = some s :=
  List.getElem?_of_mem h

/-- The points of a graph are the places of its statements. -/
theorem mem_points {g : Graph} {p : Point} : p ∈ g.points ↔ ∃ s, g.statement? p = some s := by
  unfold points
  rw [List.mem_flatMap]
  constructor
  · rintro ⟨b, -, h⟩
    obtain ⟨i, hi, rfl⟩ := List.mem_map.1 h
    exact ⟨_, List.getElem?_eq_getElem (List.mem_range.1 hi)⟩
  · rintro ⟨s, hs⟩
    exact ⟨p.block, List.mem_range.2 (block_lt hs), List.mem_map.2 ⟨p.index, List.mem_range.2 (index_lt hs), rfl⟩⟩

/-- The statements of a block are statements of the function. -/
theorem mem_function_statements {g : Graph} {b : Nat} {s : Statement} (h : s ∈ g.statements b) :
    s ∈ g.function.statements := by
  unfold statements at h
  cases hb : g.function.blocks[b]? with
  | none =>
    rw [hb] at h
    cases h
  | some x =>
    rw [hb] at h
    exact List.mem_flatMap.2 ⟨x, List.mem_of_getElem? hb, h⟩

/-! ## Arcs -/

/-- The jumps among statements from an index on, with where they go. -/
theorem mem_jumpsFrom {g : Graph} {l : List Statement} {index : Nat} {e : Nat × Nat} :
    e ∈ g.jumpsFrom index l ↔ ∃ i s, e.1 = index + i ∧ l[i]? = some s ∧ g.destination? s = some e.2 := by
  induction l generalizing index with
  | nil => simp [jumpsFrom]
  | cons s rest ih =>
    have hrest : (∃ i x, e.1 = index + i ∧ (s :: rest)[i]? = some x ∧ g.destination? x = some e.2) ↔
        (e.1 = index ∧ g.destination? s = some e.2) ∨ e ∈ g.jumpsFrom (index + 1) rest := by
      rw [ih]
      constructor
      · rintro ⟨i, x, hi, hx, hd⟩
        cases i with
        | zero =>
          rw [List.getElem?_cons_zero, Option.some.injEq] at hx
          exact .inl ⟨hi, hx ▸ hd⟩
        | succ i => exact .inr ⟨i, x, by omega, hx, hd⟩
      · rintro (⟨hi, hd⟩ | ⟨i, x, hi, hx, hd⟩)
        · exact ⟨0, s, hi, rfl, hd⟩
        · exact ⟨i + 1, x, by omega, hx, hd⟩
    rw [hrest, jumpsFrom]
    split
    · rename_i t ht
      rw [List.mem_cons, ht, Option.some.injEq]
      refine or_congr ?_ Iff.rfl
      obtain ⟨e1, e2⟩ := e
      simp [eq_comm]
    · rename_i hd
      simp [hd]

/-- The arcs that leave a block are those of its successors and those of its jumps. -/
theorem mem_arcsOf {g : Graph} {b : Nat} {a : Arc} :
    a ∈ g.arcsOf b ↔ a.source = b ∧
      ((a.jump = none ∧ a.target ∈ g.successors b) ∨ ∃ i, a.jump = some i ∧ g.jumpTarget? ⟨b, i⟩ = some a.target) := by
  obtain ⟨source, jump, target⟩ := a
  unfold arcsOf
  rw [List.mem_append, List.mem_map, List.mem_map]
  constructor
  · rintro (⟨t, ht, h⟩ | ⟨⟨i, t⟩, hi, h⟩)
    · cases h
      exact ⟨rfl, .inl ⟨rfl, ht⟩⟩
    · cases h
      obtain ⟨j, s, rfl, hs, hd⟩ := mem_jumpsFrom.1 hi
      refine ⟨rfl, .inr ⟨0 + j, rfl, ?_⟩⟩
      rw [Nat.zero_add]
      exact Option.bind_eq_some_iff.2 ⟨s, hs, hd⟩
  · rintro ⟨hb, ⟨hj, ht⟩ | ⟨i, hj, ht⟩⟩
    · dsimp only at hb hj ht
      subst hb hj
      exact .inl ⟨target, ht, rfl⟩
    · dsimp only at hb hj ht
      subst hb hj
      obtain ⟨s, hs, hd⟩ := Option.bind_eq_some_iff.1 ht
      exact .inr ⟨(i, target), mem_jumpsFrom.2 ⟨i, s, by simp, hs, hd⟩, rfl⟩

/-- A jump makes an arc to where it goes. -/
theorem jump_mem_arcsOf {g : Graph} {p : Point} {s : Statement} {t : Nat} (hs : g.statement? p = some s)
    (ht : g.destination? s = some t) : ⟨p.block, some p.index, t⟩ ∈ g.arcsOf p.block :=
  mem_arcsOf.2 ⟨rfl, .inr ⟨p.index, rfl, Option.bind_eq_some_iff.2 ⟨s, hs, ht⟩⟩⟩

/-- Arcs leave blocks. -/
theorem source_lt {g : Graph} {b : Nat} {a : Arc} (h : a ∈ g.arcsOf b) : b < g.size := by
  obtain ⟨-, ⟨-, ht⟩ | ⟨i, -, ht⟩⟩ := mem_arcsOf.1 h
  · by_cases hb : b < g.size
    · exact hb
    · unfold successors at ht
      rw [List.getElem?_eq_none (by exact Nat.le_of_not_lt hb)] at ht
      cases ht
  · obtain ⟨s, hs, -⟩ := Option.bind_eq_some_iff.1 ht
    exact block_lt hs

/-- Arcs enter blocks. -/
theorem target_lt {g : Graph} {b : Nat} {a : Arc} (h : a ∈ g.arcsOf b) : a.target < g.size := by
  obtain ⟨-, ⟨-, ht⟩ | ⟨i, -, ht⟩⟩ := mem_arcsOf.1 h
  · exact lt_of_mem_successors ht
  · obtain ⟨s, -, hd⟩ := Option.bind_eq_some_iff.1 ht
    exact lt_of_destination? hd

/-- The arcs of a graph are those that leave its blocks. -/
theorem mem_arcs {g : Graph} {a : Arc} : a ∈ g.arcs ↔ a ∈ g.arcsOf a.source := by
  unfold arcs
  rw [List.mem_flatMap]
  constructor
  · rintro ⟨b, -, h⟩
    have hb := (mem_arcsOf.1 h).1
    rw [hb]
    exact h
  · intro h
    exact ⟨a.source, List.mem_range.2 (source_lt h), h⟩

/-- The arcs into a block. -/
theorem mem_incoming {g : Graph} {b : Nat} {a : Arc} : a ∈ g.incoming b ↔ a ∈ g.arcsOf a.source ∧ a.target = b := by
  unfold incoming
  rw [List.mem_filter, mem_arcs, beq_iff_eq]

end Graph

end FlowLint.Flow
