import FlowLint.Proofs.Flow.Rescan

/-!
# Labels of a name

A live `goto` revives its name, and its target block has to be scanned afterwards for its label to become live. Only the `goto`
that revives a name first makes its target wait. So a label that a live `goto` lands on is live exactly if control comes to it
anyway or a scan came to it when its name was revived (`isLive_landing_iff`). That holds of the labels in some block with the name,
hence of all labels of a name that stand in one block, but not of a name with labels in two blocks
(`not_isLive_twoLabels`).
-/

namespace FlowLint.Flow.Graph

variable {g : Graph}

/-- In the end a label is live if control comes to it from in front, or a scan came to it when its name was revived. -/
theorem isLive_label_iff {q : Point} {name : String} (hq : g.labelAt? q = some name) : g.liveness.isLive q = true ↔
    g.ComesTo q.block (g.liveness.isEntered q.block = true) (fun j => g.liveness.isLive ⟨q.block, j⟩ = true) q.index ∨
      g.Hears q name := by
  obtain ⟨s, hs, hn⟩ := labelAt?_eq_some_iff.1 hq
  have hswitch : isSwitchLabel s = false := by
    unfold isSwitchLabel
    rw [userLabel?_eq_some_iff.1 hn]
  refine (isLive_iff_comesTo hs).trans (or_congr Iff.rfl ⟨?_, fun h => .inr ⟨name, hn, h⟩⟩)
  rintro (hw | ⟨x, hx, h⟩)
  · rw [hswitch] at hw
    cases hw
  · exact Option.some.inj (hn.symm.trans hx) ▸ h

/-- A live `goto` that lands on labels of a name revives it. -/
theorem mem_revived_of_landsOn {p q : Point} {s : Statement} {t : Nat} {name : String} (hp : g.liveness.isLive p = true)
    (hs : g.statement? p = some s) (ht : g.destination? s = some t) (hq : g.LandsOn s t q) (hn : g.labelAt? q = some name) :
    name ∈ g.survey.marks.revived := by
  obtain ⟨-, x, hx, hqx⟩ := landsOn_iff.1 hq
  obtain rfl := Option.some.inj (hqx.symm.trans hn)
  exact ((followed_of_isLive hs hp) t ht).1 x hx

/-- A revived name has a block in which all its labels are live. -/
theorem exists_isLive_of_mem_revived {name : String} (h : name ∈ g.survey.marks.revived) :
    ∃ q, g.labelAt? q = some name ∧
      ∀ q', q'.block = q.block → g.labelAt? q' = some name → g.liveness.isLive q' = true := by
  obtain ⟨q, n, m, hq, hscan, hr⟩ := exists_scan_of_mem_revived (n := g.scanBound) h
  refine ⟨q, hq, fun q' hblock hq' => (isLive_label_iff hq').2 (.inr ⟨n, m, hblock ▸ hscan, ?_⟩)⟩
  exact (g.grows_scanUpTo m q'.block q'.index).1.revived name hr

/-- A label that a live `goto` lands on is live exactly if control comes to it from in front or a scan came to it when its name
was revived. There is a block with the name in which all labels of the name are live, so that the label is live if all labels of
its name stand in its block. -/
theorem isLive_landing_iff {p q : Point} {s : Statement} {t : Nat} {name : String} (hp : g.liveness.isLive p = true)
    (hs : g.statement? p = some s) (ht : g.destination? s = some t) (hq : g.LandsOn s t q) (hn : g.labelAt? q = some name) :
    (g.liveness.isLive q = true ↔
      g.ComesTo t (g.liveness.isEntered t = true) (fun j => g.liveness.isLive ⟨t, j⟩ = true) q.index ∨ g.Hears q name) ∧
    (∃ q', g.labelAt? q' = some name ∧
      ∀ q'', q''.block = q'.block → g.labelAt? q'' = some name → g.liveness.isLive q'' = true) ∧
    ((∀ q', g.labelAt? q' = some name → q'.block = t) → g.liveness.isLive q = true) := by
  have hblock : q.block = t := hq.1
  have hexists := exists_isLive_of_mem_revived (mem_revived_of_landsOn hp hs ht hq hn)
  refine ⟨hblock ▸ isLive_label_iff hn, hexists, fun hall => ?_⟩
  obtain ⟨q', hq', hlive⟩ := hexists
  exact hlive q (by rw [hblock, hall q' hq']) hn

/-- Two labels of one name in different blocks, each with a `goto` that lands on it. -/
def twoLabels : Graph where
  function :=
    { (default : Function) with
      blocks :=
        [⟨0, [⟨.other, .zero⟩], [1, 2]⟩,
         ⟨1, [⟨.jump ⟨.goto, some 3, some "out", none⟩, .zero⟩], []⟩,
         ⟨2, [⟨.jump ⟨.goto, some 4, some "out", none⟩, .zero⟩], []⟩,
         ⟨3, [⟨.label "out" .user, .zero⟩, ⟨.jump ⟨.return, none, none, none⟩, .zero⟩], []⟩,
         ⟨4, [⟨.label "out" .user, .zero⟩, ⟨.jump ⟨.return, none, none, none⟩, .zero⟩], []⟩] }
  faultless := rfl

/-- A scan comes to the first label when its name is revived, and none comes to the second one: its `goto` revives nothing new. -/
theorem hears_twoLabels : twoLabels.Hears ⟨3, 0⟩ "out" ∧ ¬twoLabels.Hears ⟨4, 0⟩ "out" := by
  have hfirst := isLive_landing_iff (g := twoLabels) (p := ⟨1, 0⟩) (q := ⟨3, 0⟩) (t := 3) (by decide +kernel) rfl rfl
    ⟨rfl, _, "out", rfl, rfl, rfl, rfl⟩ rfl
  have hsecond := isLive_landing_iff (g := twoLabels) (p := ⟨2, 0⟩) (q := ⟨4, 0⟩) (t := 4) (by decide +kernel) rfl rfl
    ⟨rfl, _, "out", rfl, rfl, rfl, rfl⟩ rfl
  constructor
  · refine (hfirst.1.1 (by decide +kernel)).resolve_left ?_
    rintro (⟨-, he⟩ | ⟨j, s, hj, -⟩)
    · exact absurd he (by decide +kernel)
    · cases hj
  · intro h
    exact absurd (hsecond.1.2 (.inr h)) (by decide +kernel)

/-- The second `goto` is live and lands on its label, which is dead all the same. -/
theorem not_isLive_twoLabels : ∃ s, twoLabels.statement? ⟨2, 0⟩ = some s ∧ twoLabels.liveness.isLive ⟨2, 0⟩ = true ∧
    twoLabels.destination? s = some 4 ∧ twoLabels.LandsOn s 4 ⟨4, 0⟩ ∧ twoLabels.liveness.isLive ⟨4, 0⟩ = false :=
  ⟨_, rfl, by decide +kernel, rfl, ⟨rfl, _, "out", rfl, rfl, rfl, rfl⟩, by decide +kernel⟩

end FlowLint.Flow.Graph
