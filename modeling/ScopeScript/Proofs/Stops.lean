import ScopeScript.Proofs.Visits

/-!
# Where a run stops

A run stops short of a result when it fails or comes to a bound, however deep inside the calls in
progress that is. The moments of a run account for this: **the work of a moment stops only if it
stops at the moment itself, or if the work of a part stops**, for the same reason
(`ScopeScript.Moment.Stops.cases`). As moments only lead to smaller ones, one comes to the place
where the run stops in the end (`ScopeScript.Moment.Stops.visits`).

A run that fails stops with its error (`ScopeScript.Interpreter.start_stops_of_error`), and one
without an end at a bound (`ScopeScript.Interpreter.start_stops_of_none`).
-/

namespace ScopeScript

/-! ### Steps that stop -/

/-- The step **stops** without a result: with the error given, or else at a bound. -/
def Outcome.Stops {α : Type} (why : Option RuntimeError) : Outcome α → Prop
  | .done _ _ => False
  | .failed e _ => why = some e
  | .unfinished => why = none

section Outcomes

variable {α β : Type} {o : Outcome α} {why : Option RuntimeError}

/-- One step after another **stops** if one of them does. -/
theorem Outcome.stops_andThen {f : α → State → Outcome β} : (o.andThen f).Stops why ↔
    o.Stops why ∨ ∃ a st, o = .done a st ∧ (f a st).Stops why := by
  cases o <;> simp [Stops, Outcome.andThen]

theorem Outcome.stops_andThen_done {f : α → State → β} {g : α → State → State} :
    (o.andThen fun a st => .done (f a st) (g a st)).Stops why ↔ o.Stops why := by
  cases o <;> exact Iff.rfl

/-- A scope does not stop **by ending**. -/
theorem Outcome.stops_closing {close : Option Value → State → State} {result : Flow → α}
    {o : Outcome Flow} : (o.closing close result).Stops why ↔ o.Stops why := by
  cases o <;> exact Iff.rfl

theorem stops_enclosed {opts : Options} {site : Site} {body : Site → Eval Flow} {st : State} :
    (Eval.enclosed opts site body st).Stops why ↔
      (body (site.enter st) (st.enter site.scope)).Stops why := by
  rw [enclosed_apply, ending_eq_closing]
  exact Outcome.stops_closing

/-- An operator stops **with a fault of its operands**. -/
theorem fault_of_ofOperator {span : Span} {r : Except TypeFault Value} {st : State}
    (h : (Eval.ofOperator span r st).Stops why) :
    ∃ fault, why = some (.wrongOperands fault span) := by
  cases r with
  | ok v => contradiction
  | error fault => exact ⟨fault, h⟩

end Outcomes

/-! ### Moments that stop -/

section Stopping

variable (opts : Options) (turns : Nat)

/-- The work of the moment **stops**. -/
def Moment.Stops (m : Moment) (why : Option RuntimeError) : Prop :=
  match m.task with
  | .expression site e => (evaluate (call opts turns m.calls) site e m.state).Stops why
  | .expressions site es => (evaluateAll (call opts turns m.calls) site es m.state).Stops why
  | .call v args span => (call opts turns m.calls v args span m.state).Stops why
  | .statement site s => (execute opts (call opts turns m.calls) turns site s m.state).Stops why
  | .statements site ss =>
    ∃ last, (executeAll opts (call opts turns m.calls) turns site last ss m.state).Stops why
  | .loop site test body k =>
    (Eval.repeatWhile (evaluate (call opts turns m.calls) site test)
      (executeAll opts (call opts turns m.calls) turns site .null body) k m.state).Stops why

/-- **A part of the work** stops, which is done at another moment. -/
def Moment.PartStops (m : Moment) (why : Option RuntimeError) : Prop :=
  ∃ m₁, Moment.Step opts turns m m₁ ∧ m₁.Stops opts turns why

/-- The work stops **at the moment itself**. -/
inductive Moment.StopsHere : Moment → Option RuntimeError → Prop
  /-- A name is looked up and not found. -/
  | lookup {n site name span st} (h : st.store.get? site.scope name = none) :
    StopsHere ⟨n, .expression site (.name name span), st⟩ (some (.unknownName name span))
  /-- The operands do not fit the operator between them. -/
  | binary {n site op l r span st fault} :
    StopsHere ⟨n, .expression site (.binary op l r span), st⟩ (some (.wrongOperands fault span))
  /-- The operand does not fit the operator before it. -/
  | unary {n site op e span st fault} :
    StopsHere ⟨n, .expression site (.unary op e span), st⟩ (some (.wrongOperands fault span))
  /-- The value cannot be called. -/
  | notCallable {n v args span st} :
    StopsHere ⟨n, .call v args span, st⟩ (some (.notCallable v.render span))
  /-- The call of a closure is refused. -/
  | refused {n c args span st e} (h : opts.refusal? c.decl args span st.depth = some e) :
    StopsHere ⟨n, .call (.closure c) args span, st⟩ (some e)
  /-- The call of a closure is not refused, but no call may nest any more. -/
  | outOfCalls {c args span st} (h : opts.refusal? c.decl args span st.depth = none) :
    StopsHere ⟨0, .call (.closure c) args span, st⟩ none
  /-- The loop has taken all its turns. -/
  | outOfTurns {n site test body st} : StopsHere ⟨n, .loop site test body 0, st⟩ none

end Stopping

/-! ### One moment -/

section Cases

variable {opts : Options} {turns n : Nat} {site : Site} {st : State} {why : Option RuntimeError}

/-- A block stops **in its statements**. -/
theorem stops_of_executeBlock {b : Block}
    (h : (executeBlock opts (call opts turns n) turns site b st).Stops why) :
    Moment.Stops opts turns ⟨n, .statements (site.enter st) b.statements, st.enter site.scope⟩
      why := by
  obtain ⟨ss, inner⟩ := b
  rw [executeBlock_mk, stops_enclosed] at h
  exact ⟨.null, h⟩

/-- An expression that stops is **a name that is not found**, or has operands that do not fit, or a
part of it stops. -/
theorem expression_stops {e : Expr}
    (h : (evaluate (call opts turns n) site e st).Stops why) :
    Moment.StopsHere opts ⟨n, .expression site e, st⟩ why ∨
      Moment.PartStops opts turns ⟨n, .expression site e, st⟩ why := by
  cases e with
  | literal v _ => contradiction
  | name id _ =>
    rw [evaluate_name, Eval.lookup] at h
    split at h
    · contradiction
    · next hnone =>
      cases h
      exact .inl (.lookup hnone)
  | binary op l r _ =>
    rw [evaluate_binary] at h
    rcases Outcome.stops_andThen.mp h with h | ⟨a, st₁, hl, h⟩
    · exact .inr ⟨_, .operand rfl, h⟩
    · rcases Outcome.stops_andThen.mp h with h | ⟨b, st₂, -, h⟩
      · exact .inr ⟨_, .right hl, h⟩
      · obtain ⟨fault, rfl⟩ := fault_of_ofOperator h
        exact .inl .binary
  | logical op l r _ =>
    rw [evaluate_logical] at h
    rcases Outcome.stops_andThen.mp h with h | ⟨a, st₁, hl, h⟩
    · exact .inr ⟨_, .operand rfl, h⟩
    · split at h
      · contradiction
      · next hop => exact .inr ⟨_, .undecided hl (eq_false_of_ne_true hop), h⟩
  | unary op e _ =>
    rw [evaluate_unary] at h
    rcases Outcome.stops_andThen.mp h with h | ⟨a, st₁, -, h⟩
    · exact .inr ⟨_, .operand rfl, h⟩
    · obtain ⟨fault, rfl⟩ := fault_of_ofOperator h
      exact .inl .unary
  | call f args _ =>
    rw [evaluate_call] at h
    rcases Outcome.stops_andThen.mp h with h | ⟨v, st₁, hf, h⟩
    · exact .inr ⟨_, .operand rfl, h⟩
    · rcases Outcome.stops_andThen.mp h with h | ⟨vs, st₂, hargs, h⟩
      · exact .inr ⟨_, .arguments hf, h⟩
      · exact .inr ⟨_, .call hf hargs, h⟩

theorem expressions_stop {es : List Expr}
    (h : (evaluateAll (call opts turns n) site es st).Stops why) :
    Moment.PartStops opts turns ⟨n, .expressions site es, st⟩ why := by
  cases es with
  | nil => contradiction
  | cons e es =>
    rw [evaluateAll_cons] at h
    rcases Outcome.stops_andThen.mp h with h | ⟨v, st₁, he, h⟩
    · exact ⟨_, .head, h⟩
    · exact ⟨_, .tail he, Outcome.stops_andThen_done.mp h⟩

/-- A call that stops is **refused** or not possible, or no call may nest any more, or else **the
body** of a closure stops. -/
theorem call_stops {v : Value} {args : List Value} {place : Span}
    (h : (call opts turns n v args place st).Stops why) :
    Moment.StopsHere opts ⟨n, .call v args place, st⟩ why ∨
      Moment.PartStops opts turns ⟨n, .call v args place, st⟩ why := by
  rw [call_eq_answer] at h
  cases v with
  | closure c =>
    rw [answer_closure] at h
    split at h
    · next e hrefused =>
      cases h
      exact .inl (.refused hrefused)
    · next hanswered =>
      rw [activation_eq_closing, Outcome.stops_closing] at h
      cases n with
      | zero =>
        cases h
        exact .inl (.outOfCalls hanswered)
      | succ n =>
        obtain ⟨harity, hlimit⟩ := Options.refusal?_eq_none hanswered
        exact .inr ⟨_, .body harity hlimit, .null, h⟩
  | builtin => contradiction
  | _ =>
    cases h
    exact .inl .notCallable

theorem statement_stops {s : Stmt}
    (h : (execute opts (call opts turns n) turns site s st).Stops why) :
    Moment.PartStops opts turns ⟨n, .statement site s, st⟩ why := by
  cases s with
  | declare id e _ =>
    cases e with
    | none => contradiction
    | some e =>
      rw [execute_declare_some, Outcome.stops_andThen_done] at h
      exact ⟨_, .value rfl, h⟩
  | print e _ =>
    rw [execute_print, Outcome.stops_andThen_done] at h
    exact ⟨_, .value rfl, h⟩
  | block b =>
    rw [execute_block] at h
    exact ⟨_, .block, stops_of_executeBlock h⟩
  | conditional test b c _ =>
    rw [execute_conditional] at h
    rcases Outcome.stops_andThen.mp h with h | ⟨v, st₁, htest, h⟩
    · exact ⟨_, .value rfl, h⟩
    · split at h
      · next hv => exact ⟨_, .yes htest hv, stops_of_executeBlock h⟩
      · next hv =>
        cases c with
        | none => contradiction
        | some c => exact ⟨_, .no htest (eq_false_of_ne_true hv), stops_of_executeBlock h⟩
  | loop test b _ =>
    obtain ⟨body, inner⟩ := b
    rw [execute_loop, stops_enclosed] at h
    exact ⟨_, .loop, h⟩
  | function id params b _ => contradiction
  | exit e _ =>
    rw [execute_exit, Outcome.stops_andThen_done] at h
    exact ⟨_, .value rfl, h⟩
  | expression e =>
    rw [execute_expression, Outcome.stops_andThen_done] at h
    exact ⟨_, .value rfl, h⟩

theorem statements_stop {ss : List Stmt} {last : Value}
    (h : (executeAll opts (call opts turns n) turns site last ss st).Stops why) :
    Moment.PartStops opts turns ⟨n, .statements site ss, st⟩ why := by
  cases ss with
  | nil => contradiction
  | cons s ss =>
    rw [executeAll_cons] at h
    rcases Outcome.stops_andThen.mp h with h | ⟨flow, st₁, hs, h⟩
    · exact ⟨_, .first, h⟩
    · cases flow with
      | normal v => exact ⟨_, .rest hs, v, h⟩
      | exit v => contradiction

theorem loop_stops {test : Expr} {body : List Stmt} {k : Nat}
    (h : (Eval.repeatWhile (evaluate (call opts turns n) site test)
      (executeAll opts (call opts turns n) turns site .null body) k st).Stops why) :
    Moment.StopsHere opts ⟨n, .loop site test body k, st⟩ why ∨
      Moment.PartStops opts turns ⟨n, .loop site test body k, st⟩ why := by
  cases k with
  | zero =>
    cases h
    exact .inl .outOfTurns
  | succ k =>
    rw [repeatWhile_succ] at h
    rcases Outcome.stops_andThen.mp h with h | ⟨v, st₁, htest, h⟩
    · exact .inr ⟨_, .test, h⟩
    · split at h
      · next hv =>
        rcases Outcome.stops_andThen.mp h with h | ⟨flow, st₂, hbody, h⟩
        · exact .inr ⟨_, .turn htest hv, .null, h⟩
        · cases flow with
          | normal v => exact .inr ⟨_, .again htest hv hbody, h⟩
          | exit v => contradiction
      · contradiction

/-- **A moment stops** only if it stops itself, or if a part stops for the same reason. -/
theorem Moment.Stops.cases {m : Moment} (h : m.Stops opts turns why) :
    m.StopsHere opts why ∨ m.PartStops opts turns why := by
  obtain ⟨n, task, st⟩ := m
  cases task with
  | expression site e => exact expression_stops h
  | expressions site es => exact .inr (expressions_stop h)
  | call v args place => exact call_stops h
  | statement site s => exact .inr (statement_stops h)
  | statements site ss =>
    obtain ⟨last, h⟩ := h
    exact .inr (statements_stop h)
  | loop site test body k => exact loop_stops h

end Cases

/-! ### Moments get smaller -/

/-- How much text a task **has before it**. -/
noncomputable def Task.size : Task → Nat
  | .expression _ e => sizeOf e
  | .expressions _ es => sizeOf es
  | .call _ _ _ => 0
  | .statement _ s => sizeOf s
  | .statements _ ss => sizeOf ss
  | .loop _ test body _ => sizeOf test + sizeOf body + 1

/-- How many turns a task has before it. -/
def Task.turns : Task → Nat
  | .loop _ _ _ k => k
  | _ => 0

/-- What is left of the run: **calls count for more than text**, and text for more than turns. -/
noncomputable def Moment.left (m : Moment) : Nat × Nat × Nat :=
  (m.calls, m.task.size, m.task.turns)

section Runs

variable {opts : Options} {turns : Nat}

theorem Expr.sizeOf_first_lt {e first : Expr} (h : e.first? = some first) :
    sizeOf first < sizeOf e := by
  cases e <;> cases h <;> simp only [Expr.binary.sizeOf_spec, Expr.logical.sizeOf_spec,
    Expr.unary.sizeOf_spec, Expr.call.sizeOf_spec] <;> omega

theorem Stmt.sizeOf_first_lt {s : Stmt} {e : Expr} (h : s.first? = some e) :
    sizeOf e < sizeOf s := by
  cases s <;> cases h <;> simp only [Stmt.declare.sizeOf_spec, Stmt.print.sizeOf_spec,
    Stmt.conditional.sizeOf_spec, Stmt.exit.sizeOf_spec, Stmt.expression.sizeOf_spec,
    Option.some.sizeOf_spec] <;> omega

theorem Block.sizeOf_statements_lt (b : Block) : sizeOf b.statements < sizeOf b := by
  obtain ⟨ss, inner⟩ := b
  simp only [Block.mk.sizeOf_spec, Block.statements]
  omega

/-- **Moments only lead to smaller ones.** -/
theorem Moment.Step.left_lt {m m₁ : Moment} (h : Moment.Step opts turns m m₁) :
    Prod.Lex (· < ·) (Prod.Lex (· < ·) (· < ·)) m₁.left m.left := by
  have hsize : ∀ {n k k₁ i i₁ : Nat}, k₁ < k →
      Prod.Lex (· < ·) (Prod.Lex (· < ·) (· < ·)) (n, k₁, i₁) (n, k, i) :=
    fun h => .right _ (.left _ _ h)
  cases h with
  | operand h => exact hsize (Expr.sizeOf_first_lt h)
  | body => exact .left _ _ (Nat.lt_succ_self _)
  | value h => exact hsize (Stmt.sizeOf_first_lt h)
  -- the step goes to the statements of a block, which are less than the block
  | @block _ _ b | @yes _ _ _ b | @no _ _ _ _ b | @loop _ _ _ b =>
    have hb := b.sizeOf_statements_lt
    refine hsize ?_
    simp only [Task.size, Stmt.block.sizeOf_spec, Stmt.conditional.sizeOf_spec,
      Stmt.loop.sizeOf_spec, Option.some.sizeOf_spec]
    omega
  | again => exact .right _ (.right _ (Nat.lt_succ_self _))
  | _ =>
    refine hsize ?_
    simp only [Task.size, Expr.binary.sizeOf_spec, Expr.logical.sizeOf_spec,
      Expr.call.sizeOf_spec, List.cons.sizeOf_spec]
    omega

/-- **No run goes on for ever within its bounds.** -/
theorem Moment.wellFounded_step (opts : Options) (turns : Nat) :
    WellFounded fun m₁ m => Moment.Step opts turns m m₁ :=
  Subrelation.wf (fun h => h.left_lt)
    (InvImage.wf Moment.left (Prod.lex Nat.lt_wfRel (Prod.lex Nat.lt_wfRel Nat.lt_wfRel)).wf)

/-- From a moment that stops one comes to **one that stops itself**, for the same reason. -/
theorem Moment.Stops.visits {m : Moment} {why : Option RuntimeError}
    (h : m.Stops opts turns why) : ∃ m', Moment.Visits opts turns m m' ∧ m'.StopsHere opts why := by
  induction m using (Moment.wellFounded_step opts turns).induction with
  | h m ih =>
    rcases h.cases with hm | ⟨m₁, hstep, h⟩
    · exact ⟨m, .refl, hm⟩
    · obtain ⟨m', hvisits, hm'⟩ := ih m₁ hstep h
      exact ⟨m', hvisits.head hstep, hm'⟩

/-- **A run that fails** stops with its error. -/
theorem Interpreter.start_stops_of_error {it it' : Interpreter} {bounds : Bounds} {p : Program}
    {e : RuntimeError} (h : it.run bounds p = some (.error e, it')) :
    (it.start bounds p).Stops it.options bounds.turns (some e) := by
  rw [Interpreter.run_apply] at h
  split at h
  · cases h
  · next hp =>
    cases h
    have hstops : (it.executeAll bounds it.nextText.1 p.statements it.state).Stops (some e) := by
      rw [hp]
      rfl
    exact ⟨.null, hstops⟩
  · contradiction

/-- **A run without an end** stops at a bound. -/
theorem Interpreter.start_stops_of_none {it : Interpreter} {bounds : Bounds} {p : Program}
    (h : it.run bounds p = none) : (it.start bounds p).Stops it.options bounds.turns none := by
  rw [Interpreter.run_apply] at h
  split at h
  · contradiction
  · contradiction
  · next hp =>
    have hstops : (it.executeAll bounds it.nextText.1 p.statements it.state).Stops none := by
      rw [hp]
      rfl
    exact ⟨.null, hstops⟩

end Runs

end ScopeScript
