import ScopeScript.Interpreter

/-!
# Running, one construct at a time

What a step of a run does is a function of the state before it. This file writes that function down
for every construct of the language, so that the arguments about runs never open the monad again:
each of them is an induction on the program that rewrites with one equation per construct.

What is claimed of a step is a claim about how it comes out. `ScopeScript.Outcome.Ends` says it for
results and for errors alike, and has nothing to say of a run that comes to a bound; it composes
along `ScopeScript.Outcome.andThen`.
-/

namespace ScopeScript

/-! ### What is said of an outcome -/

/-- **The outcome is as it should be**: `result` holds of a result and the state with it, `error` of
an error and the state with it. -/
def Outcome.Ends {α : Type} (result : α → State → Prop) (error : RuntimeError → State → Prop) :
    Outcome α → Prop
  | .done a st => result a st
  | .failed e st => error e st
  | .unfinished => True

namespace Outcome

variable {α β : Type} {R R' : α → State → Prop} {E E' : RuntimeError → State → Prop}

theorem Ends.imp {o : Outcome α} (h : o.Ends R E) (hR : ∀ a st, R a st → R' a st)
    (hE : ∀ e st, E e st → E' e st) : o.Ends R' E' := by
  cases o with
  | done a st => exact hR a st h
  | failed e st => exact hE e st h
  | unfinished => trivial

/-- **One step after another**: what the first comes to must lead the second to the goal. -/
theorem Ends.andThen {o : Outcome α} {f : α → State → Outcome β} {Q : β → State → Prop}
    (h : o.Ends (fun a st => (f a st).Ends Q E) E) : (o.andThen f).Ends Q E := by
  cases o with
  | done a st => exact h
  | failed e st => exact h
  | unfinished => trivial

/-- One step after another **fails** if one of them does. -/
theorem andThen_eq_failed {o : Outcome α} {f : α → State → Outcome β} {e : RuntimeError}
    {st : State} :
    o.andThen f = .failed e st ↔
      o = .failed e st ∨ ∃ a st₁, o = .done a st₁ ∧ f a st₁ = .failed e st := by
  constructor
  · intro h
    cases o with
    | done a st₁ => exact .inr ⟨a, st₁, rfl, h⟩
    | failed e' st₁ =>
      cases h
      exact .inl rfl
    | unfinished => contradiction
  · rintro (rfl | ⟨a, st₁, rfl, h⟩)
    · rfl
    · exact h

/-- The state that the step leads to is as it should be, **whether there is a result or an
error**. -/
abbrev Leads (P : State → Prop) (o : Outcome α) : Prop :=
  o.Ends (fun _ => P) (fun _ => P)

end Outcome

/-! ### Expressions -/

section Expressions

variable {call : Caller} {site : Site} {st : State}

theorem evaluate_literal (v : Literal) (span : Span) :
    evaluate call site (.literal v span) st = .done v.value st :=
  rfl

theorem evaluate_name (id : String) (span : Span) :
    evaluate call site (.name id span) st = Eval.lookup site.scope id span st :=
  rfl

theorem evaluate_binary (op : BinaryOp) (l r : Expr) (span : Span) :
    evaluate call site (.binary op l r span) st =
      (evaluate call site l st).andThen fun a st =>
        (evaluate call site r st).andThen fun b st =>
          Eval.ofOperator span (op.apply a b) st :=
  rfl

theorem evaluate_logical (op : LogicalOp) (l r : Expr) (span : Span) :
    evaluate call site (.logical op l r span) st =
      (evaluate call site l st).andThen fun a st =>
        if op.decides a then .done a st else evaluate call site r st := by
  rw [evaluate, Eval.bind_apply]
  congr 1
  funext a st
  split <;> rfl

theorem evaluate_unary (op : UnaryOp) (e : Expr) (span : Span) :
    evaluate call site (.unary op e span) st =
      (evaluate call site e st).andThen fun a st => Eval.ofOperator span (op.apply a) st :=
  rfl

theorem evaluate_call (f : Expr) (args : List Expr) (span : Span) :
    evaluate call site (.call f args span) st =
      (evaluate call site f st).andThen fun callee st =>
        (evaluateAll call site args st).andThen fun values st => call callee values span st :=
  rfl

theorem evaluateAll_nil : evaluateAll call site [] st = .done [] st :=
  rfl

theorem evaluateAll_cons (e : Expr) (es : List Expr) :
    evaluateAll call site (e :: es) st =
      (evaluate call site e st).andThen fun v st =>
        (evaluateAll call site es st).andThen fun vs st => .done (v :: vs) st :=
  rfl

end Expressions

/-! ### The states on the way -/

namespace State

/-- The state once a name has been bound. -/
def define (st : State) (s : Scope) (name : String) (v : Value) : State :=
  { st with store := st.store.define s name v }

/-- The state once a line has been printed. -/
def print (st : State) (line : String) : State :=
  { st with output := st.output.push line }

/-- The state once a scope has been opened inside the given one. -/
def enter (st : State) (s : Scope) : State :=
  { st with store := (st.store.enclose s).2 }

/-- The state in which the body of a closure starts: its parameters are bound in a new scope, and
one more call is in progress. -/
def activate (st : State) (c : Closure) (args : List Value) : State :=
  ⟨(st.store.enclose c.scope).2.bindAll (st.store.enclose c.scope).1 c.decl.params args, st.output,
    st.depth + 1⟩

/-- The state once a call has come back. -/
def comeBack (st : State) : State :=
  { st with depth := st.depth - 1 }

end State

/-- The place in a scope **opened inside** that of a place. -/
def Site.enter (site : Site) (st : State) : Site :=
  ⟨site.text, (st.store.enclose site.scope).1⟩

/-! ### Scopes and loops -/

/-- **The end of a scope** after what was done in it, by what becomes of the state, given the value
that survives, if any. -/
def Outcome.closing {α : Type} (close : Option Value → State → State) (result : Flow → α) :
    Outcome Flow → Outcome α
  | .done flow st => .done (result flow) (close (some flow.value) st)
  | .failed e st => .failed e (close none st)
  | .unfinished => .unfinished

section Scopes

variable {opts : Options} {st : State}

theorem ending_eq_closing {s : Scope} {body : Eval Flow} :
    Eval.ending opts s body st = (body st).closing (fun v st => st.leave opts s v) id := by
  rw [Eval.ending]
  cases body st <;> rfl

theorem enclosed_apply (site : Site) (body : Site → Eval Flow) :
    Eval.enclosed opts site body st =
      Eval.ending opts (st.store.enclose site.scope).1
        (body ⟨site.text, (st.store.enclose site.scope).1⟩) (st.enter site.scope) :=
  rfl

theorem repeatWhile_zero (test : Eval Value) (body : Eval Flow) :
    Eval.repeatWhile test body 0 st = .unfinished :=
  rfl

theorem repeatWhile_succ (test : Eval Value) (body : Eval Flow) (n : Nat) :
    Eval.repeatWhile test body (n + 1) st =
      (test st).andThen fun v st =>
        if v.truthy then
          (body st).andThen fun flow st =>
            match flow with
            | .exit v => .done (.exit v) st
            | .normal _ => Eval.repeatWhile test body n st
        else .done (.normal .null) st := by
  rw [Eval.repeatWhile, Eval.bind_apply]
  congr 1
  funext v st
  split
  · rw [Eval.bind_apply]
    congr 1
    funext flow st
    cases flow <;> rfl
  · rfl

end Scopes

/-! ### Statements -/

section Statements

variable {opts : Options} {call : Caller} {turns : Nat} {site : Site} {st : State}

theorem execute_declare_none (name : String) (span : Span) :
    execute opts call turns site (.declare name none span) st =
      .done (.normal .null) (st.define site.scope name .null) :=
  rfl

theorem execute_declare_some (name : String) (e : Expr) (span : Span) :
    execute opts call turns site (.declare name (some e) span) st =
      (evaluate call site e st).andThen fun v st =>
        .done (.normal v) (st.define site.scope name v) :=
  rfl

theorem execute_print (e : Expr) (span : Span) :
    execute opts call turns site (.print e span) st =
      (evaluate call site e st).andThen fun v st =>
        .done (.normal .null) (st.print v.render) :=
  rfl

theorem execute_block (b : Block) :
    execute opts call turns site (.block b) st = executeBlock opts call turns site b st :=
  rfl

theorem execute_conditional (test : Expr) (b : Block) (c : Option Block) (span : Span) :
    execute opts call turns site (.conditional test b c span) st =
      (evaluate call site test st).andThen fun v st =>
        if v.truthy then executeBlock opts call turns site b st
        else match c with
          | some c => executeBlock opts call turns site c st
          | none => .done (.normal .null) st := by
  cases c <;> rw [execute, Eval.bind_apply] <;> congr 1 <;> funext v st <;> split <;> rfl

theorem execute_loop (test : Expr) (body : List Stmt) (inner span : Span) :
    execute opts call turns site (.loop test (.mk body inner) span) st =
      Eval.enclosed opts site (fun inner =>
        Eval.repeatWhile (evaluate call inner test) (executeAll opts call turns inner .null body)
          turns) st :=
  rfl

theorem execute_function (name : String) (params : List String) (body : Block) (span : Span) :
    execute opts call turns site (.function name params body span) st =
      .done (.normal (.closure ⟨site.text, ⟨name, params, body⟩, site.scope⟩))
        (st.define site.scope name (.closure ⟨site.text, ⟨name, params, body⟩, site.scope⟩)) :=
  rfl

theorem execute_exit (e : Expr) (span : Span) :
    execute opts call turns site (.exit e span) st =
      (evaluate call site e st).andThen fun v st => .done (.exit v) st :=
  rfl

theorem execute_expression (e : Expr) :
    execute opts call turns site (.expression e) st =
      (evaluate call site e st).andThen fun v st => .done (.normal v) st :=
  rfl

theorem executeBlock_mk (ss : List Stmt) (span : Span) :
    executeBlock opts call turns site (.mk ss span) st =
      Eval.enclosed opts site (fun inner => executeAll opts call turns inner .null ss) st :=
  rfl

theorem executeAll_nil (last : Value) :
    executeAll opts call turns site last [] st = .done (.normal last) st :=
  rfl

theorem executeAll_cons (last : Value) (s : Stmt) (ss : List Stmt) :
    executeAll opts call turns site last (s :: ss) st =
      (execute opts call turns site s st).andThen fun flow st =>
        match flow with
        | .normal v => executeAll opts call turns site v ss st
        | .exit v => .done (.exit v) st := by
  rw [executeAll, Eval.bind_apply]
  congr 1
  funext flow st
  cases flow <;> rfl

end Statements

/-! ### Calls -/

section Calls

variable {opts : Options} {turns : Nat} {st : State}

/-- How the **bodies of closures** are run where so many calls may nest. -/
def bodies (opts : Options) (turns : Nat) : Nat → Site → List Stmt → Eval Flow
  | 0 => fun _ _ => Eval.unfinished
  | n + 1 => fun site body => executeAll opts (call opts turns n) turns site .null body

theorem call_eq_answer (n : Nat) : call opts turns n = answer opts (bodies opts turns n) := by
  funext v args span
  cases n <;> rw [call] <;> rfl

variable {runBody : Site → List Stmt → Eval Flow}

theorem answer_builtin (args : List Value) (span : Span) :
    answer opts runBody .builtin args span st =
      .done .null (st.print (" ".intercalate (args.map Value.render))) :=
  rfl

/-- Why a call of a closure is **refused**, if it is: for the number of its arguments, or else for
the limit of calls. -/
def Options.refusal? (opts : Options) (decl : FunctionDecl) (args : List Value) (span : Span)
    (depth : Nat) : Option RuntimeError :=
  if opts.strictArity ∧ args.length ≠ decl.params.length then
    some (.wrongArgumentCount decl.name decl.params.length args.length span)
  else match opts.maxCallDepth with
    | some limit => if limit ≤ depth then some (.tooManyCalls limit span) else none
    | none => none

/-- A call of a closure **fails at once or runs the body**. -/
theorem answer_closure (c : Closure) (args : List Value) (span : Span) :
    answer opts runBody (.closure c) args span st =
      match opts.refusal? c.decl args span st.depth with
      | some e => .failed e st
      | none => Eval.activation opts runBody c args st := by
  rw [Options.refusal?]
  by_cases h : opts.strictArity ∧ args.length ≠ c.decl.params.length
  · rw [if_pos h]
    exact congrFun (if_pos h) st
  · rw [if_neg h]
    refine (congrFun (if_neg h) st).trans ?_
    cases opts.maxCallDepth with
    | none => rfl
    | some limit =>
      by_cases hlimit : limit ≤ st.depth
      · simp only [if_pos hlimit]
      · simp only [if_neg hlimit]

/-- The number of arguments is looked at first, **whatever the limit**. -/
theorem Options.refusal?_of_arity {decl : FunctionDecl} {args : List Value}
    (harity : opts.strictArity ∧ args.length ≠ decl.params.length) (span : Span) (depth : Nat) :
    opts.refusal? decl args span depth =
      some (.wrongArgumentCount decl.name decl.params.length args.length span) :=
  if_pos harity

/-- A call is answered if **the arguments and the limit allow it**. -/
theorem Options.refusal?_eq_none {decl : FunctionDecl} {args : List Value} {span : Span}
    {depth : Nat} (h : opts.refusal? decl args span depth = none) :
    ¬ (opts.strictArity ∧ args.length ≠ decl.params.length) ∧
      ∀ limit, opts.maxCallDepth = some limit → depth < limit := by
  rw [Options.refusal?] at h
  split at h
  · contradiction
  · next harity =>
    refine ⟨harity, fun limit hlimit => ?_⟩
    rw [hlimit] at h
    refine Nat.lt_of_not_le fun hle => ?_
    simp only [if_pos hle] at h
    contradiction

/-- No call is refused **for an unknown name**. -/
theorem Options.refusal?_ne_unknownName {decl : FunctionDecl} {args : List Value} {span : Span}
    {depth : Nat} {e : RuntimeError} (h : opts.refusal? decl args span depth = some e)
    (name : String) (place : Span) : e ≠ .unknownName name place := by
  rintro rfl
  rw [Options.refusal?] at h
  split at h
  · cases h
  · split at h
    · split at h
      · cases h
      · contradiction
    · contradiction

theorem activation_apply (c : Closure) (args : List Value) :
    Eval.activation opts runBody c args st =
      match runBody ⟨c.text, (st.store.enclose c.scope).1⟩ c.decl.body.statements
          (st.activate c args) with
      | .done flow st' =>
        .done flow.value
          (st'.comeBack.leave opts (st.store.enclose c.scope).1 (some flow.value))
      | .failed e st' => .failed e (st'.comeBack.leave opts (st.store.enclose c.scope).1 none)
      | .unfinished => .unfinished :=
  rfl

theorem activation_eq_closing {c : Closure} {args : List Value} :
    Eval.activation opts runBody c args st =
      (runBody (Site.enter ⟨c.text, c.scope⟩ st) c.decl.body.statements
        (st.activate c args)).closing
          (fun v st' => st'.comeBack.leave opts (st.store.enclose c.scope).1 v) Flow.value := by
  rw [activation_apply, Site.enter]
  cases runBody _ _ (st.activate c args) <;> rfl

end Calls

/-! ### Programs -/

/-- A run of a program is **a run of its statements** in the global scope. -/
theorem Interpreter.run_apply (it : Interpreter) (bounds : Bounds) (p : Program) :
    it.run bounds p =
      match it.executeAll bounds it.nextText.1 p.statements it.state with
      | .done flow st => some (.ok flow.value, { it.nextText.2 with state := st })
      | .failed e st => some (.error e, { it.nextText.2 with state := st })
      | .unfinished => none := by
  have hread : it.nextText.2.executeAll bounds it.nextText.1 p.statements it.nextText.2.state =
      it.executeAll bounds it.nextText.1 p.statements it.state := rfl
  simp only [Interpreter.run]
  unfold Interpreter.perform
  rw [Eval.bind_apply, hread]
  cases it.executeAll bounds it.nextText.1 p.statements it.state <;> rfl

namespace Interpreter

/-- Runs programs **one after another on one interpreter**: what came of each, unless one of them
comes to its bounds. -/
def runAll (it : Interpreter) :
    List (Bounds × Program) → Option (List (Except RuntimeError Value) × Interpreter)
  | [] => some ([], it)
  | (bounds, p) :: rest =>
    match it.run bounds p with
    | some (r, it) => (it.runAll rest).map fun ran => (r :: ran.1, ran.2)
    | none => none

/-- What can be **seen of an interpreter** from outside: the lines printed, and the values of the
global names. -/
def seen (it : Interpreter) : List String × (String → Option Value) :=
  (it.output, it.state.store.get? it.globals)

end Interpreter

end ScopeScript
