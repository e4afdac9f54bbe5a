import ScopeScript.Proofs.Recoding

/-!
# Code rewritten in place

Where a list of statements does what another one does, from whatever state and however calls are
answered, the one may be put in the place of the other: **at any depth of a program, at any number
of places, and in the bodies of its procedures**. A run prints the same lines, fails with the same
error and gives the same value, and it comes to its bounds if it did before
(`ScopeScript.Interpreter.run_rewritten`).

A procedure that is declared takes its body along, into frames, through calls and out of the
program as its value. So what is shown is that running goes along with rewriting all declarations
that a state holds; calls are answered by the rewritten bodies, and closures are the same if they
were before, since they are told apart by their names and their spans.
-/

namespace ScopeScript

/-- A way to **rewrite lists of statements** so that they do what they did. -/
structure Rewriting where
  /-- The list that is put in the place of another. -/
  list : List Stmt → List Stmt
  /-- It does what the other does. -/
  sound (opts : Options) (call : Caller) (turns : Nat) (site : Site) (last : Value)
    (ss : List Stmt) (st : State) :
    executeAll opts call turns site last (list ss) st = executeAll opts call turns site last ss st

section Rewritten

variable (r : Rewriting)

mutual

/-- The statement with all lists of statements in it rewritten, from the inside out. -/
def Stmt.rewritten : Stmt → Stmt
  | .declare name e span => .declare name e span
  | .print e span => .print e span
  | .block b => .block b.rewritten
  | .conditional test b none span => .conditional test b.rewritten none span
  | .conditional test b (some c) span => .conditional test b.rewritten (some c.rewritten) span
  | .loop test b span => .loop test b.rewritten span
  | .function name params b span => .function name params b.rewritten span
  | .exit e span => .exit e span
  | .expression e => .expression e

/-- The block with all lists of statements in it rewritten. -/
def Block.rewritten : Block → Block
  | .mk ss span => .mk (r.list (Stmt.rewrittenAll ss)) span

/-- The statements, each with all lists in it rewritten; the list that they stand in is not. -/
def Stmt.rewrittenAll : List Stmt → List Stmt
  | [] => []
  | s :: ss => s.rewritten :: Stmt.rewrittenAll ss

end

/-- The program with all lists of statements in it rewritten. -/
def Program.rewritten (p : Program) : Program :=
  ⟨r.list (Stmt.rewrittenAll r p.statements)⟩

/-- Where code is rewritten, **declarations are replaced**. -/
def Rewriting.recoding : Recoding :=
  ⟨id, fun _ d => ⟨d.name, d.params, d.body.rewritten r⟩, fun _ _ => rfl, fun _ _ => rfl⟩

/-- The outcome of the rewritten code, given how results change. -/
def Outcome.rewritten {α β : Type} (f : α → β) : Outcome α → Outcome β
  | .done a st => .done (f a) (st.recoded r.recoding)
  | .failed e st => .failed e (st.recoded r.recoding)
  | .unfinished => .unfinished

end Rewritten

variable {r : Rewriting} {α β : Type}

@[simp] theorem Block.span_rewritten (b : Block) : (b.rewritten r).span = b.span := by
  cases b
  rfl

theorem Block.statements_rewritten (b : Block) :
    (b.rewritten r).statements = r.list (Stmt.rewrittenAll r b.statements) := by
  cases b
  rfl

/-- Rewritten closures are the same **if they were before**. -/
theorem Closure.same_rewritten (c d : Closure) :
    (c.recoded r.recoding).same (d.recoded r.recoding) = c.same d := by
  have hbody : ∀ c : Closure, (c.recoded r.recoding).decl.body.span = c.decl.body.span :=
    fun c => c.decl.body.span_rewritten
  rw [Bool.eq_iff_iff, same_iff, same_iff, hbody, hbody]
  rfl

/-- **One step after another**, in the rewritten code. -/
theorem Outcome.andThen_rewritten {g : α → α} {h : β → β} {o : Outcome α}
    {f f' : α → State → Outcome β}
    (hf : ∀ a st, f' (g a) (st.recoded r.recoding) = (f a st).rewritten r h) :
    (o.rewritten r g).andThen f' = (o.andThen f).rewritten r h := by
  cases o with
  | done a st => exact hf a st
  | _ => rfl

/-- **The end of a scope**, with a result or with an error. -/
theorem Outcome.closing_rewritten {close close' : Option Value → State → State}
    {result : Flow → α} {g : α → α}
    (hclose : ∀ v st, close' (v.map (Value.recoded r.recoding)) (st.recoded r.recoding) =
      (close v st).recoded r.recoding)
    (hresult : ∀ flow, result (flow.recoded r.recoding) = g (result flow)) (o : Outcome Flow) :
    (o.rewritten r (Flow.recoded r.recoding)).closing close' result =
      (o.closing close result).rewritten r g := by
  cases o with
  | done flow st =>
    have hdone := hclose (some flow.value) st
    rw [Option.map_some, ← Flow.value_recoded] at hdone
    simp only [rewritten, closing, hdone, hresult]
  | failed e st => exact congrArg (Outcome.failed e) (hclose none st)
  | unfinished => rfl

namespace Rewriting

/-! ### Expressions -/

section Expressions

/-- **Calls are answered alike** by the rewritten code. -/
def Callers (r : Rewriting) (call call' : Caller) : Prop :=
  ∀ v args span st,
    call' (v.recoded r.recoding) (args.map (Value.recoded r.recoding)) span
        (st.recoded r.recoding) =
      (call v args span st).rewritten r (Value.recoded r.recoding)

variable {call call' : Caller} {site : Site}

theorem lookup_rewritten (s : Scope) (name : String) (span : Span) (st : State) :
    Eval.lookup s name span (st.recoded r.recoding) =
      (Eval.lookup s name span st).rewritten r (Value.recoded r.recoding) := by
  have hget : (st.recoded r.recoding).store.get? s name =
      (st.store.get? s name).map (Value.recoded r.recoding) := st.store.get?_recoded s name
  rw [Eval.lookup, Eval.lookup, hget]
  cases st.store.get? s name <;> rfl

/-- What an operator gives is no closure, **so that nothing in it is rewritten**. -/
theorem ofOperator_rewritten {v : Except TypeFault Value}
    (hplain : ∀ a, v = .ok a → ∀ c, a ≠ .closure c) (span : Span) (st : State) :
    Eval.ofOperator span v (st.recoded r.recoding) =
      (Eval.ofOperator span v st).rewritten r (Value.recoded r.recoding) := by
  cases v with
  | ok a =>
    change Outcome.done a _ = Outcome.done (a.recoded r.recoding) _
    rw [Value.recoded_of_ne (hplain a rfl)]
  | error fault => rfl

mutual

/-- **An expression is evaluated alike** where the code is rewritten. -/
theorem evaluate_rewritten (hcall : r.Callers call call') : ∀ (e : Expr) (st : State),
    evaluate call' site e (st.recoded r.recoding) =
      (evaluate call site e st).rewritten r (Value.recoded r.recoding)
  | .literal v span, st => by
    rw [evaluate_literal, evaluate_literal, Outcome.rewritten,
      Value.recoded_of_ne v.value_ne_closure]
  | .name id span, st => by
    rw [evaluate_name, evaluate_name, lookup_rewritten]
  | .binary op left right span, st => by
    rw [evaluate_binary, evaluate_binary, evaluate_rewritten hcall left]
    refine Outcome.andThen_rewritten fun a st => ?_
    rw [evaluate_rewritten hcall right]
    refine Outcome.andThen_rewritten fun b st => ?_
    rw [BinaryOp.apply_recoded fun c d _ _ => c.same_rewritten d]
    exact ofOperator_rewritten (fun _ => BinaryOp.apply_ne_closure) span st
  | .logical op left right span, st => by
    rw [evaluate_logical, evaluate_logical, evaluate_rewritten hcall left]
    refine Outcome.andThen_rewritten fun a st => ?_
    rw [LogicalOp.decides_recoded]
    split
    · rfl
    · exact evaluate_rewritten hcall right st
  | .unary op e span, st => by
    rw [evaluate_unary, evaluate_unary, evaluate_rewritten hcall e]
    refine Outcome.andThen_rewritten fun a st => ?_
    rw [UnaryOp.apply_recoded]
    exact ofOperator_rewritten (fun _ => UnaryOp.apply_ne_closure) span st
  | .call f args span, st => by
    rw [evaluate_call, evaluate_call, evaluate_rewritten hcall f]
    refine Outcome.andThen_rewritten fun v st => ?_
    rw [evaluateAll_rewritten hcall args]
    exact Outcome.andThen_rewritten fun vs st => hcall v vs span st

theorem evaluateAll_rewritten (hcall : r.Callers call call') : ∀ (es : List Expr) (st : State),
    evaluateAll call' site es (st.recoded r.recoding) =
      (evaluateAll call site es st).rewritten r (List.map (Value.recoded r.recoding))
  | [], st => rfl
  | e :: es, st => by
    rw [evaluateAll_cons, evaluateAll_cons, evaluate_rewritten hcall e]
    refine Outcome.andThen_rewritten fun v st => ?_
    rw [evaluateAll_rewritten hcall es]
    exact Outcome.andThen_rewritten fun vs st => rfl

end

end Expressions

/-! ### Scopes and loops -/

section Scopes

variable {opts : Options}

theorem enclosed_rewritten {site : Site} {body body' : Site → Eval Flow}
    (h : ∀ inner st,
      body' inner (st.recoded r.recoding) = (body inner st).rewritten r (Flow.recoded r.recoding))
    (st : State) :
    Eval.enclosed opts site body' (st.recoded r.recoding) =
      (Eval.enclosed opts site body st).rewritten r (Flow.recoded r.recoding) := by
  have hscope : ((st.recoded r.recoding).store.enclose site.scope).1 =
      (st.store.enclose site.scope).1 := st.store.enclose_scope_recoded site.scope
  rw [enclosed_apply, enclosed_apply, hscope, State.enter_recoded, ending_eq_closing,
    ending_eq_closing, h]
  refine Outcome.closing_rewritten ?_ ?_ _
  · exact fun v st => st.leave_recoded opts _ v
  · exact fun _ => rfl

/-- A loop, **turn by turn**. -/
theorem repeatWhile_rewritten {test test' : Eval Value} {body body' : Eval Flow}
    (htest : ∀ st, test' (st.recoded r.recoding) =
      (test st).rewritten r (Value.recoded r.recoding))
    (hbody : ∀ st, body' (st.recoded r.recoding) =
      (body st).rewritten r (Flow.recoded r.recoding)) : ∀ (turns : Nat) (st : State),
    Eval.repeatWhile test' body' turns (st.recoded r.recoding) =
      (Eval.repeatWhile test body turns st).rewritten r (Flow.recoded r.recoding)
  | 0, _ => rfl
  | n + 1, st => by
    rw [repeatWhile_succ, repeatWhile_succ, htest]
    refine Outcome.andThen_rewritten fun v st => ?_
    rw [Value.truthy_recoded]
    split
    · rw [hbody]
      refine Outcome.andThen_rewritten fun flow st => ?_
      cases flow with
      | normal v => exact repeatWhile_rewritten htest hbody n st
      | exit v => rfl
    · rfl

end Scopes

/-! ### Statements -/

section Statements

variable {opts : Options} {call call' : Caller} {turns : Nat} {site : Site}

mutual

/-- **A statement runs alike** where the code is rewritten. -/
theorem execute_rewritten (hcall : r.Callers call call') : ∀ (s : Stmt) {site : Site} (st : State),
    execute opts call' turns site (s.rewritten r) (st.recoded r.recoding) =
      (execute opts call turns site s st).rewritten r (Flow.recoded r.recoding)
  | .declare name none span, site, st => by
    rw [Stmt.rewritten, execute_declare_none, execute_declare_none]
    have hdefine := st.define_recoded (ρ := r.recoding) site.scope name .null
    exact congrArg (Outcome.done (Flow.normal .null)) hdefine
  | .declare name (some e) span, site, st => by
    rw [Stmt.rewritten, execute_declare_some, execute_declare_some, evaluate_rewritten hcall e]
    refine Outcome.andThen_rewritten fun v st => ?_
    rw [State.define_recoded]
    rfl
  | .print e span, site, st => by
    rw [Stmt.rewritten, execute_print, execute_print, evaluate_rewritten hcall e]
    refine Outcome.andThen_rewritten fun v st => ?_
    rw [Value.render_recoded]
    rfl
  | .block b, site, st => by
    rw [Stmt.rewritten, execute_block, execute_block]
    exact executeBlock_rewritten hcall b st
  | .conditional test b none span, site, st => by
    rw [Stmt.rewritten, execute_conditional, execute_conditional, evaluate_rewritten hcall test]
    refine Outcome.andThen_rewritten fun v st => ?_
    rw [Value.truthy_recoded]
    split
    · exact executeBlock_rewritten hcall b st
    · rfl
  | .conditional test b (some c) span, site, st => by
    rw [Stmt.rewritten, execute_conditional, execute_conditional, evaluate_rewritten hcall test]
    refine Outcome.andThen_rewritten fun v st => ?_
    rw [Value.truthy_recoded]
    split
    · exact executeBlock_rewritten hcall b st
    · exact executeBlock_rewritten hcall c st
  | .loop test (.mk body inner) span, site, st => by
    rw [Stmt.rewritten, Block.rewritten, execute_loop, execute_loop]
    refine enclosed_rewritten (fun site st => ?_) st
    refine repeatWhile_rewritten (evaluate_rewritten hcall test) (fun st => ?_) turns st
    exact executeList_rewritten hcall body st
  | .function name params body span, site, st => by
    rw [Stmt.rewritten, execute_function, execute_function]
    have hdefine := st.define_recoded (ρ := r.recoding) site.scope name
      (.closure ⟨site.text, ⟨name, params, body⟩, site.scope⟩)
    exact congrArg (Outcome.done _) hdefine
  | .exit e span, site, st => by
    rw [Stmt.rewritten, execute_exit, execute_exit, evaluate_rewritten hcall e]
    exact Outcome.andThen_rewritten fun v st => rfl
  | .expression e, site, st => by
    rw [Stmt.rewritten, execute_expression, execute_expression, evaluate_rewritten hcall e]
    exact Outcome.andThen_rewritten fun v st => rfl

theorem executeBlock_rewritten (hcall : r.Callers call call') :
    ∀ (b : Block) {site : Site} (st : State),
      executeBlock opts call' turns site (b.rewritten r) (st.recoded r.recoding) =
        (executeBlock opts call turns site b st).rewritten r (Flow.recoded r.recoding)
  | .mk ss span, site, st => by
    rw [Block.rewritten, executeBlock_mk, executeBlock_mk]
    exact enclosed_rewritten (fun _ st => executeList_rewritten hcall ss st) st

/-- A list of statements runs alike **once it is rewritten itself**. -/
theorem executeList_rewritten (hcall : r.Callers call call') :
    ∀ (ss : List Stmt) {site : Site} (st : State),
      executeAll opts call' turns site .null (r.list (Stmt.rewrittenAll r ss))
          (st.recoded r.recoding) =
        (executeAll opts call turns site .null ss st).rewritten r (Flow.recoded r.recoding) :=
  fun ss site st => by
    rw [r.sound]
    exact executeAll_rewritten hcall ss .null st

theorem executeAll_rewritten (hcall : r.Callers call call') :
    ∀ (ss : List Stmt) {site : Site} (last : Value) (st : State),
      executeAll opts call' turns site (last.recoded r.recoding) (Stmt.rewrittenAll r ss)
          (st.recoded r.recoding) =
        (executeAll opts call turns site last ss st).rewritten r (Flow.recoded r.recoding)
  | [], site, last, st => rfl
  | s :: ss, site, last, st => by
    rw [Stmt.rewrittenAll, executeAll_cons, executeAll_cons, execute_rewritten hcall s]
    refine Outcome.andThen_rewritten fun flow st => ?_
    cases flow with
    | normal v => exact executeAll_rewritten hcall ss v st
    | exit v => rfl

end

end Statements

/-! ### Calls -/

section Calls

variable {opts : Options} {runBody runBody' : Site → List Stmt → Eval Flow}

/-- **Bodies are run alike** where they are rewritten. -/
def Bodies (r : Rewriting) (runBody runBody' : Site → List Stmt → Eval Flow) : Prop :=
  ∀ site ss st, runBody' site (r.list (Stmt.rewrittenAll r ss)) (st.recoded r.recoding) =
    (runBody site ss st).rewritten r (Flow.recoded r.recoding)

theorem activation_rewritten (hbody : r.Bodies runBody runBody') (c : Closure) (args : List Value)
    (st : State) :
    Eval.activation opts runBody' (c.recoded r.recoding) (args.map (Value.recoded r.recoding))
        (st.recoded r.recoding) =
      (Eval.activation opts runBody c args st).rewritten r (Value.recoded r.recoding) := by
  have hscope : ((st.recoded r.recoding).store.enclose (c.recoded r.recoding).scope).1 =
      (st.store.enclose c.scope).1 := st.store.enclose_scope_recoded c.scope
  have hstatements : (c.recoded r.recoding).decl.body.statements =
      r.list (Stmt.rewrittenAll r c.decl.body.statements) := c.decl.body.statements_rewritten
  have hsite : Site.enter ⟨c.text, c.scope⟩ (st.recoded r.recoding) =
      Site.enter ⟨c.text, c.scope⟩ st := congrArg (Site.mk c.text) hscope
  have hplace : (⟨(c.recoded r.recoding).text, (c.recoded r.recoding).scope⟩ : Site) =
      ⟨c.text, c.scope⟩ := rfl
  rw [activation_eq_closing, activation_eq_closing, hstatements, hplace, hsite, hscope,
    State.activate_recoded, hbody]
  exact Outcome.closing_rewritten (fun v st => st.comeBack.leave_recoded opts _ v)
    Flow.value_recoded _

/-- **Calls are answered alike** if bodies are run alike. -/
theorem answer_rewritten (hbody : r.Bodies runBody runBody') :
    r.Callers (answer opts runBody) (answer opts runBody') := by
  intro v args span st
  cases v with
  | closure c =>
    -- whether the call is refused depends on the name and on the numbers alone
    have hrefusal : opts.refusal? (c.recoded r.recoding).decl (args.map (Value.recoded r.recoding))
        span (st.recoded r.recoding).depth = opts.refusal? c.decl args span st.depth := by
      rw [Options.refusal?, List.length_map]
      rfl
    rw [Value.recoded, answer_closure, answer_closure, hrefusal]
    cases opts.refusal? c.decl args span st.depth with
    | some e => rfl
    | none => exact activation_rewritten hbody c args st
  | builtin =>
    have hshown : (args.map (Value.recoded r.recoding)).map Value.render =
        args.map Value.render := by
      rw [List.map_map]
      exact List.map_congr_left fun v _ => v.render_recoded
    have hbuiltin : Value.builtin.recoded r.recoding = .builtin := rfl
    rw [hbuiltin, answer_builtin, answer_builtin, hshown]
    rfl
  | _ => rfl

/-- Bodies are run alike **however deeply calls may nest**. -/
theorem bodies_rewritten (r : Rewriting) (opts : Options) (turns : Nat) :
    ∀ n, r.Bodies (bodies opts turns n) (bodies opts turns n)
  | 0 => fun _ _ _ => rfl
  | n + 1 => fun site ss st => by
    refine executeList_rewritten ?_ ss st
    rw [call_eq_answer]
    exact answer_rewritten (bodies_rewritten r opts turns n)

theorem call_rewritten (r : Rewriting) (opts : Options) (turns n : Nat) :
    r.Callers (call opts turns n) (call opts turns n) := by
  rw [call_eq_answer]
  exact answer_rewritten (bodies_rewritten r opts turns n)

end Calls

end Rewriting

/-! ### Programs -/

/-- The interpreter with all declarations that its frames hold rewritten. -/
def Interpreter.rewritten (r : Rewriting) (it : Interpreter) : Interpreter :=
  { it with state := it.state.recoded r.recoding }

/-- What comes of a run of the rewritten code: **the same error or the rewritten value**, and the
interpreter with its declarations rewritten. -/
def Interpreter.ranRewritten (r : Rewriting) (ran : Except RuntimeError Value × Interpreter) :
    Except RuntimeError Value × Interpreter :=
  (ran.1.map (Value.recoded r.recoding), ran.2.rewritten r)

/-- **Rewritten programs run alike**, within the same bounds, from any interpreter. -/
theorem Interpreter.run_rewritten (r : Rewriting) (it : Interpreter) (bounds : Bounds)
    (p : Program) :
    (it.rewritten r).run bounds (p.rewritten r) = (it.run bounds p).map (ranRewritten r) := by
  have hrun : (it.rewritten r).executeAll bounds (it.rewritten r).nextText.1
      (p.rewritten r).statements (it.rewritten r).state =
        (it.executeAll bounds it.nextText.1 p.statements it.state).rewritten r
          (Flow.recoded r.recoding) :=
    Rewriting.executeList_rewritten (r.call_rewritten it.options bounds.turns bounds.calls)
      p.statements it.state
  rw [run_apply, run_apply, hrun]
  cases it.executeAll bounds it.nextText.1 p.statements it.state with
  | done flow st =>
    simp only [Outcome.rewritten, Flow.value_recoded]
    rfl
  | failed e st => rfl
  | unfinished => rfl

/-- In a new interpreter **there is nothing to rewrite**. -/
theorem Interpreter.rewritten_new (r : Rewriting) (opts : Options) :
    (new opts).rewritten r = new opts := by
  have hroot : Store.empty.root.2.recoded r.recoding = Store.empty.root.2 := by
    simp [Store.recoded, Store.root, Store.empty, Frame.recoded]
  have hdefine := Store.empty.root.2.define_recoded (ρ := r.recoding) Store.empty.root.1
    Keyword.print.spelling .builtin
  rw [hroot] at hdefine
  exact congrArg (fun store => Interpreter.mk opts Store.empty.root.1 0 ⟨store, #[], 0⟩)
    hdefine.symm

end ScopeScript
