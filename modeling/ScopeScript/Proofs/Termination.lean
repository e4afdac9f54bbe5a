import ScopeScript.Proofs.Bounds
import ScopeScript.Proofs.CallLimit
import ScopeScript.Proofs.Origins
import ScopeScript.Proofs.Stops

/-!
# Runs that end

The limit of calls stops any recursion, so **only a loop can make a run go on for ever**
(`ScopeScript.run_ends_of_loopFree`): a program without loops comes to an end, which does not depend
on the bounds of the run; and a run that comes to a bound on the turns of loops has come to a loop
of its program that has taken all of them.

A run that comes to a bound stops there at some moment (`ScopeScript.Moment.Stops.visits`). The bound
on calls is not reached before their limit is, since the calls that may still nest and those in
progress are always equally many together; what is left is a loop. The code that a run comes to is
code of its program, wherever the closures with that code were carried
(`ScopeScript.Code.discipline`), so the loop is one of the program.
-/

namespace ScopeScript

/-! ### Programs without loops -/

/-- A program **without loops**, in the bodies of procedures neither. -/
def Program.LoopFree (p : Program) : Prop :=
  ∀ test b span, ¬ p.Has (.stmt (.loop test b span))

mutual

/-- Whether there is **a loop in a statement**. -/
def Stmt.hasLoop : Stmt → Bool
  | .loop _ _ _ => true
  | .block b => b.hasLoop
  | .conditional _ b none _ => b.hasLoop
  | .conditional _ b (some c) _ => b.hasLoop || c.hasLoop
  | .function _ _ b _ => b.hasLoop
  | _ => false

/-- Whether there is a loop in a block. -/
def Block.hasLoop : Block → Bool
  | .mk ss _ => Stmt.anyHasLoop ss

/-- Whether there is a loop in one of several statements. -/
def Stmt.anyHasLoop : List Stmt → Bool
  | [] => false
  | s :: ss => s.hasLoop || Stmt.anyHasLoop ss

end

/-- Whether there is a loop at a node or below it. -/
def Node.hasLoop : Node → Bool
  | .expr _ => false
  | .stmt s => s.hasLoop
  | .block b => b.hasLoop

theorem Stmt.anyHasLoop_eq_any (ss : List Stmt) : Stmt.anyHasLoop ss = ss.any Stmt.hasLoop := by
  induction ss with
  | nil => rfl
  | cons s ss ih => rw [anyHasLoop, ih, List.any_cons]

/-- There is a loop at a node or below it exactly if **the node is one**, or there is one at a node
right below. -/
theorem Node.hasLoop_iff {node : Node} : node.hasLoop = true ↔
    (∃ test b span, node = .stmt (.loop test b span)) ∨
      ∃ child ∈ node.children, child.hasLoop = true := by
  rcases node with e | s | ⟨ss, span⟩
  · cases e <;> simp [hasLoop, children]
  · cases s with
    | declare _ e _ => cases e <;> simp [hasLoop, children, Stmt.hasLoop]
    | conditional _ _ c _ => cases c <;> simp [hasLoop, children, Stmt.hasLoop]
    | _ => simp [hasLoop, children, Stmt.hasLoop]
  · simp [hasLoop, children, Block.hasLoop, Stmt.anyHasLoop_eq_any, Block.statements]

mutual

/-- In a program without loops there is **no statement with one**. -/
theorem Program.LoopFree.stmt {p : Program} (hp : p.LoopFree) :
    ∀ s : Stmt, p.Has (.stmt s) → s.hasLoop = false
  | .loop test b span, hs => absurd hs (hp test b span)
  | .block b, hs => hp.block b (.child hs (by simp [Node.children]))
  | .conditional _ b none _, hs => hp.block b (.child hs (by simp [Node.children]))
  | .conditional _ b (some c) _, hs => by
    rw [Stmt.hasLoop, hp.block b (.child hs (by simp [Node.children])),
      hp.block c (.child hs (by simp [Node.children]))]
    rfl
  | .function _ _ b _, hs => hp.block b (.child hs (by simp [Node.children]))
  | .declare _ _ _, _ | .print _ _, _ | .exit _ _, _ | .expression _, _ => rfl

theorem Program.LoopFree.block {p : Program} (hp : p.LoopFree) :
    ∀ b : Block, p.Has (.block b) → b.hasLoop = false
  | .mk ss _, hb => hp.statements ss fun _ hs => .child hb (List.mem_map_of_mem hs)

theorem Program.LoopFree.statements {p : Program} (hp : p.LoopFree) :
    ∀ ss : List Stmt, (∀ s ∈ ss, p.Has (.stmt s)) → Stmt.anyHasLoop ss = false
  | [], _ => rfl
  | s :: ss, hss => by
    obtain ⟨hs, hss⟩ := List.forall_mem_cons.mp hss
    rw [Stmt.anyHasLoop, hp.stmt s hs, hp.statements ss hss]
    rfl

end

/-- **Whether a program is without loops can be computed.** -/
theorem Program.loopFree_iff {p : Program} :
    p.LoopFree ↔ Stmt.anyHasLoop p.statements = false := by
  constructor
  · exact fun hp => hp.statements p.statements fun _ => .statement
  · intro hp test b span hloop
    have hnone : ∀ node, p.Has node → node.hasLoop = false := by
      intro node hnode
      induction hnode with
      | statement hs =>
        rw [Stmt.anyHasLoop_eq_any] at hp
        exact Bool.eq_false_of_not_eq_true (List.any_eq_false.mp hp _ hs)
      | child _ hchild ih =>
        by_contra hne
        have := Node.hasLoop_iff.mpr (.inr ⟨_, hchild, Bool.eq_true_of_not_eq_false hne⟩)
        simp [ih] at this
    exact absurd (hnone _ hloop) (by simp [Node.hasLoop, Stmt.hasLoop])

instance (p : Program) : Decidable p.LoopFree :=
  decidable_of_iff _ Program.loopFree_iff.symm

/-! ### Runs -/

section Runs

variable {opts : Options} {turns limit : Nat}

/-- **The calls that may still nest and those in progress** are always equally many together. -/
theorem Moment.Step.calls_add_depth {m m₁ : Moment} (h : Moment.Step opts turns m m₁) :
    m₁.calls + m₁.state.depth = m.calls + m.state.depth := by
  have := h.depth_eq
  omega

/-- This stays so in the whole run. -/
theorem Moment.Visits.calls_add_depth {m m₁ : Moment} (h : Moment.Visits opts turns m m₁) :
    m₁.calls + m₁.state.depth = m.calls + m.state.depth := by
  induction h with
  | refl => rfl
  | tail _ hstep ih => exact hstep.calls_add_depth.trans ih

/-- From a moment that stops at a bound one comes to **a loop that has taken all its turns**, if
calls may nest as deeply as their limit allows. -/
theorem Moment.Stops.exists_loop {m : Moment} (hlimit : opts.maxCallDepth = some limit)
    (h : m.Stops opts turns none) (hcalls : limit ≤ m.calls + m.state.depth) :
    ∃ n site test body st, Moment.Visits opts turns m ⟨n, .loop site test body 0, st⟩ := by
  obtain ⟨m', hvisits, hm'⟩ := h.visits
  cases hm' with
  | outOfTurns => exact ⟨_, _, _, _, _, hvisits⟩
  | @outOfCalls c args span st hanswered =>
    -- the limit of calls is reached before their bound is
    have hdepth : st.depth < limit := (Options.refusal?_eq_none hanswered).2 limit hlimit
    have hsum : 0 + st.depth = m.calls + m.state.depth := hvisits.calls_add_depth
    omega

/-- **Only a loop makes a run go on for ever.** A run of a new interpreter that comes to a bound,
where calls may nest as deeply as their limit allows, has come to a loop of its program that has
taken all the turns that it may take. -/
theorem Interpreter.exists_loop_of_run {bounds : Bounds} {p : Program}
    (hlimit : opts.maxCallDepth = some limit) (hcalls : limit ≤ bounds.calls)
    (h : (Interpreter.new opts).run bounds p = none) :
    ∃ test b span, p.Has (.stmt (.loop test b span)) ∧ ∃ n site st,
      Moment.Visits opts bounds.turns ((Interpreter.new opts).start bounds p)
        ⟨n, .loop site test b.statements 0, st⟩ := by
  obtain ⟨n, site, test, body, st, hvisits⟩ := (Interpreter.start_stops_of_none h).exists_loop
    hlimit (Nat.le_trans hcalls (Nat.le_add_right ..))
  obtain ⟨site', b, span, st', rfl, hloop⟩ := hvisits.exists_loop rfl
  -- what the run comes to is code of the program
  have hstart : p.code.discipline.Holds () ((Interpreter.new opts).start bounds p) :=
    ⟨fun _ => .statement, Interpreter.from_new p.code opts⟩
  obtain ⟨_, -, hhas, -⟩ := hstart.visits hloop
  exact ⟨test, b, span, hhas, n, site, st, hvisits⟩

/-- **Without loops, every run ends**, whatever calls it makes. In a new interpreter, a program
without loops comes to a value or an error, and always to the same, however many turns loops may
take and however deeply calls may nest beyond their limit. Only a loop can make a run go on for
ever: a run that comes to a bound has come to a loop of the program that has taken all the turns
that it may take. -/
theorem run_ends_of_loopFree (opts : Options) (limit : Nat)
    (hlimit : opts.maxCallDepth = some limit) (p : Program) :
    (p.LoopFree → ∃ r it', ∀ bounds : Bounds, limit ≤ bounds.calls →
      (Interpreter.new opts).run bounds p = some (r, it')) ∧
    ∀ bounds : Bounds, limit ≤ bounds.calls → (Interpreter.new opts).run bounds p = none →
      ∃ test b span, p.Has (.stmt (.loop test b span)) ∧ ∃ n site st,
        Moment.Visits opts bounds.turns ((Interpreter.new opts).start bounds p)
          ⟨n, .loop site test b.statements 0, st⟩ := by
  refine ⟨fun hp => ?_, fun bounds hcalls => Interpreter.exists_loop_of_run hlimit hcalls⟩
  cases hrun : (Interpreter.new opts).run ⟨0, limit⟩ p with
  | none =>
    obtain ⟨test, b, span, hloop, -⟩ := Interpreter.exists_loop_of_run hlimit (Nat.le_refl _) hrun
    exact absurd hloop (hp test b span)
  | some ended =>
    exact ⟨ended.1, ended.2, fun bounds hcalls =>
      Interpreter.run_mono (Nat.zero_le _) hcalls hrun⟩

end Runs

/-- A program in which **two procedures call one another** for ever. -/
def pingPong : Program :=
  ⟨[.function "ping" []
      (.mk [.exit (.call (.name "pong" .none) [] .none) .none] .none) .none,
    .function "pong" [] (.mk [.exit (.call (.name "ping" .none) [] .none) .none] .none) .none,
    .expression (.call (.name "ping" .none) [] .none)]⟩

/-- A program that **goes round in a loop** for ever. -/
def spin : Program :=
  ⟨[.loop (.literal (.boolean true) .none) (.mk [] .none) .none]⟩

/-- The first ends all the same, the other comes to the bound of the turns. -/
theorem run_ends_of_loopFree_pingPong :
    (pingPong.LoopFree ∧ ∃ r it', ∀ bounds : Bounds, 3 ≤ bounds.calls →
      (Interpreter.new ⟨false, some 3, true⟩).run bounds pingPong = some (r, it')) ∧
    (Interpreter.new ⟨false, some 3, true⟩).run ⟨2, 3⟩ spin = none ∧
      ∃ test b span, spin.Has (.stmt (.loop test b span)) ∧ ∃ n site st,
        Moment.Visits ⟨false, some 3, true⟩ 2
          ((Interpreter.new ⟨false, some 3, true⟩).start ⟨2, 3⟩ spin)
          ⟨n, .loop site test b.statements 0, st⟩ := by
  have hfree : pingPong.LoopFree := by
    decide
  have hspin : (Interpreter.new ⟨false, some 3, true⟩).run ⟨2, 3⟩ spin = none := by
    rfl
  exact ⟨⟨hfree, (run_ends_of_loopFree ⟨false, some 3, true⟩ 3 rfl pingPong).1 hfree⟩, hspin,
    (run_ends_of_loopFree ⟨false, some 3, true⟩ 3 rfl spin).2 ⟨2, 3⟩ (Nat.le_refl 3) hspin⟩

end ScopeScript
