import FlowLint.Escape.Evaluation
import FlowLint.Flow.Liveness

/-!
# The origin analysis

Blocks are visited in sweeps until a sweep changes nothing or a cap is reached. A block starts from the union of what comes in
along its arcs: the state at the end of the source, or at the jump in it; the entry also starts from the initial state. Dead
statements are passed over.
-/

namespace FlowLint.Escape

open FlowLint.Flow

/-- A graph and what the sweeps need of it: the liveness of its statements, the blocks in the order of a sweep, and the arcs
into each block. -/
structure Dataflow where
  graph : Graph
  live : Liveness
  order : List Nat
  incoming : List (List Arc)

/-- What is known after some visits: the states at the starts and the ends of the visited blocks and at live jumps, and
whether the last sweep changed the state at an end or at a jump. -/
structure Progress where
  ins : List (Option State)
  outs : List (Option State)
  atJumps : List (Point × State)
  changed : Bool

/-- What is known at a statement while a block is visited. -/
structure Walk where
  state : State
  atJumps : List (Point × State)
  changed : Bool

/-- The outcome of an analysis: the states at the starts of the visited blocks, the number of sweeps, and whether the last one
changed nothing. -/
structure Outcome where
  ins : List (Option State)
  iterations : Nat
  converged : Bool

namespace Dataflow

/-- The analysis of a graph. -/
def ofGraph (g : Graph) : Dataflow where
  graph := g
  live := g.liveness
  order := g.reachable
  incoming := (List.range g.size).map g.incoming

/-- The live statements of a block, with their places. -/
def liveStatements (d : Dataflow) (b : Nat) : List (Point × Statement) :=
  ((d.graph.statements b).zipIdx.map fun (s, i) => (⟨b, i⟩, s)).filter fun (p, _) => d.live.isLive p

/-- The state at a jump. -/
def stateAtJump? (atJumps : List (Point × State)) (p : Point) : Option State :=
  (atJumps.find? fun e => e.1 == p).map (·.2)

/-- What comes in along an arc. -/
def along? (p : Progress) (a : Arc) : Option State :=
  match a.jump with
  | none => (p.outs[a.source]?).join
  | some i => stateAtJump? p.atJumps ⟨a.source, i⟩

/-- The state that a block starts from. -/
def inputOf (d : Dataflow) (p : Progress) (b : Nat) : State :=
  ((d.incoming[b]?).getD []).foldl (fun s a => ((along? p a).map s.join).getD s)
    (if b = d.graph.entry then Frame.initial d.graph.function else .empty)

/-- One live statement is passed. -/
def pass (d : Dataflow) (w : Walk) (step : Point × Statement) : Walk :=
  let next := Frame.transfer d.graph.function w.state step.2
  if step.2.asJump.isSome ∧ stateAtJump? w.atJumps step.1 ≠ some w.state then
    { state := next, atJumps := (step.1, w.state) :: w.atJumps.filter fun e => e.1 != step.1, changed := true }
  else { w with state := next }

/-- A block is visited. -/
def visit (d : Dataflow) (p : Progress) (b : Nat) : Progress :=
  let input := d.inputOf p b
  let w := (d.liveStatements b).foldl d.pass ⟨input, p.atJumps, p.changed⟩
  { ins := p.ins.set b (some input)
    outs := p.outs.set b (some w.state)
    atJumps := w.atJumps
    changed := w.changed || (p.outs[b]?).join != some w.state }

/-- All blocks are visited in order. -/
def sweep (d : Dataflow) (p : Progress) : Progress :=
  d.order.foldl d.visit { p with changed := false }

/-- Before the first sweep. -/
def start (d : Dataflow) : Progress :=
  ⟨List.replicate d.graph.size none, List.replicate d.graph.size none, [], false⟩

/-- Sweeps until one changes nothing, at most `cap`, after `done` earlier ones. -/
def sweeps (d : Dataflow) (cap done : Nat) (p : Progress) : Outcome :=
  match cap with
  | 0 => ⟨p.ins, done, false⟩
  | cap + 1 =>
    let p := d.sweep p
    if p.changed then d.sweeps cap (done + 1) p else ⟨p.ins, done + 1, true⟩

/-- The analysis with at most `cap` sweeps. -/
def run (d : Dataflow) (cap : Nat) : Outcome := d.sweeps cap 0 d.start

end Dataflow

/-- The state at the start of a block, unless it was not visited. -/
def Outcome.stateAt? (o : Outcome) (b : Nat) : Option State := (o.ins[b]?).join

/-! ## Leaks -/

/-- Where the address of a local variable ends up: in the caller, or in a place that lives on. -/
inductive Sink where
  | returned (span : Span) (reference : Bool)
  | stored (target : String) (span : Span)
deriving DecidableEq, Repr, Inhabited

/-- The address of a local variable reaches a sink; the variable it passes through is the first one mentioned besides it. -/
structure Leak where
  object : VarId
  via : Option VarId
  sink : Sink
deriving DecidableEq, Repr, Inhabited

namespace Sink

/-- Whether the address is stored. -/
def isStore : Sink → Bool
  | .returned _ _ => false
  | .stored _ _ => true

/-- What the address is stored to. -/
def target : Sink → String
  | .returned _ _ => ""
  | .stored target _ => target

/-- Where the address is returned or stored. -/
def span : Sink → Span
  | .returned span _ => span
  | .stored _ span => span

/-- Whether the address is returned as a reference. -/
def isReference : Sink → Bool
  | .returned _ reference => reference
  | .stored _ _ => false

/-- Returns come before stores; stores are in order of what they store to, and all in order of their spans. -/
instance : Ord Sink where
  compare := compareLex (compareOn isStore) (compareLex (compareOn target) (compareLex (compareOn span) (compareOn isReference)))

instance : Std.TransOrd Sink :=
  inferInstanceAs (Std.TransCmp (compareLex (compareOn isStore) (compareLex (compareOn target)
    (compareLex (compareOn span) (compareOn isReference)))))

instance : Std.LawfulEqOrd Sink where
  compare_self := Std.ReflOrd.compare_self
  eq_of_compare {a b} h := by
    obtain ⟨h1, h⟩ := compareLex_eq_eq.1 h
    obtain ⟨h2, h⟩ := compareLex_eq_eq.1 h
    obtain ⟨h3, h4⟩ := compareLex_eq_eq.1 h
    have h1 : a.isStore = b.isStore := Std.LawfulEqOrd.eq_of_compare h1
    have h2 : a.target = b.target := Std.LawfulEqOrd.eq_of_compare h2
    have h3 : a.span = b.span := Std.LawfulEqOrd.eq_of_compare h3
    have h4 : a.isReference = b.isReference := Std.LawfulEqOrd.eq_of_compare h4
    cases a <;> cases b <;> simp_all [isStore, target, span, isReference]

end Sink

namespace Leak

/-- Leaks are in order of the variable, what it passes through, and the sink. -/
instance : Ord Leak where
  compare := compareLex (compareOn object) (compareLex (compareOn via) (compareOn sink))

instance : Std.TransOrd Leak :=
  inferInstanceAs (Std.TransCmp (compareLex (compareOn object) (compareLex (compareOn via) (compareOn sink))))

instance : Std.LawfulEqOrd Leak where
  compare_self := Std.ReflOrd.compare_self
  eq_of_compare {a b} h := by
    obtain ⟨h1, h⟩ := compareLex_eq_eq.1 h
    obtain ⟨h2, h3⟩ := compareLex_eq_eq.1 h
    have h1 : a.object = b.object := Std.LawfulEqOrd.eq_of_compare h1
    have h2 : a.via = b.via := Std.LawfulEqOrd.eq_of_compare h2
    have h3 : a.sink = b.sink := Std.LawfulEqOrd.eq_of_compare h3
    cases a
    cases b
    simp_all

end Leak

namespace Frame

/-- The first variable other than a given one that an expression mentions. -/
def firstOther (e : Expr) (v : VarId) : Option VarId :=
  e.nodes.findSome? fun x =>
    match x with
    | .var _ w => if w = v then none else some w
    | _ => none

/-- The place that an assignment stores to, as it is written in reports. -/
def renderPlace (f : Function) : Expr → String
  | .cast _ a => renderPlace f a
  | .var _ v => ((f.variableOf? v).map Variable.name).getD v.render
  | .global _ name => name
  | .deref _ a => "*" ++ renderPlace f a
  | .member _ a field arrow => renderPlace f a ++ (if arrow then "->" else ".") ++ field
  | .index _ a _ => renderPlace f a ++ "[]"
  | _ => "<expr>"

/-- What a statement lets out of the frame. -/
def leaksOf (fr : Frame) (s : Statement) : List Leak :=
  let leaving (value : Expr) (origins : Origins) (sink : Sink) : List Leak :=
    origins.locals.map fun v => ⟨v, firstOther value v, sink⟩
  match s.action with
  | .jump ⟨.return, _, _, some value⟩ =>
    match fr.function.returnType with
    | .reference _ => leaving value (fr.address value) (.returned s.span true)
    | .pointer _ => leaving value (fr.value value) (.returned s.span false)
    | _ => []
  | .assign target value =>
    if fr.outlives target then leaving value (fr.value value) (.stored (renderPlace fr.function target) s.span) else []
  | _ => []

end Frame

namespace Dataflow

/-- What is let out while live statements are passed. -/
structure Replay where
  state : State
  leaks : List Leak

/-- One live statement is passed again. -/
def replayStep (d : Dataflow) (r : Replay) (step : Point × Statement) : Replay where
  state := Frame.transfer d.graph.function r.state step.2
  leaks := r.leaks ++ Frame.leaksOf ⟨d.graph.function, r.state⟩ step.2

/-- What the live statements of a block let out, from the state at its start. -/
def replay (d : Dataflow) (o : Outcome) (b : Nat) : List Leak :=
  match o.stateAt? b with
  | none => []
  | some s => ((d.liveStatements b).foldl d.replayStep ⟨s, []⟩).leaks

/-- All leaks. -/
def leaks (d : Dataflow) (o : Outcome) : OrdSet Leak :=
  .ofList ((List.range d.graph.size).flatMap (d.replay o))

end Dataflow

end FlowLint.Escape
