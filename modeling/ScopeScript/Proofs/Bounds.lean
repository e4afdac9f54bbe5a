import ScopeScript.Proofs.Running

/-!
# The bounds of a run

A run is given bounds, which the language knows nothing of: how many turns each loop may take, and
how deeply calls may nest. **Bounds only decide whether a run ends, not how**
(`ScopeScript.Interpreter.run_mono`): a run that ends within some bounds comes out the same within
all bounds that are wider.

Two runs with different bounds are compared step by step. Up to the place where the narrower bounds
are reached both do the same, and what comes of a run that has reached its bounds is never looked at
(`ScopeScript.Outcome.UpTo.andThen`).
-/

namespace ScopeScript

/-! ### Outcomes up to a bound -/

/-- The outcomes are **the same unless the first is unfinished**. -/
def Outcome.UpTo {α : Type} (o o' : Outcome α) : Prop :=
  o ≠ .unfinished → o' = o

namespace Outcome.UpTo

variable {α β : Type} {o o' : Outcome α}

theorem rfl : Outcome.UpTo o o :=
  fun _ => Eq.refl o

theorem unfinished : Outcome.UpTo .unfinished o' :=
  fun h => absurd (Eq.refl _) h

/-- **One step after another.** -/
theorem andThen {f f' : α → State → Outcome β} (h : o.UpTo o')
    (hf : ∀ a st, (f a st).UpTo (f' a st)) : (o.andThen f).UpTo (o'.andThen f') := by
  cases o with
  | unfinished => exact unfinished
  | failed e st =>
    rw [h (by simp)]
    exact rfl
  | done a st =>
    rw [h (by simp)]
    exact hf a st

/-- One step **before the same step**. -/
theorem andThen_same {f : α → State → Outcome β} (h : o.UpTo o') :
    (o.andThen f).UpTo (o'.andThen f) :=
  h.andThen fun _ _ => rfl

/-- What is done in a scope, and **its end**. -/
theorem closing {close : Option Value → State → State} {result : Flow → β} {o o' : Outcome Flow}
    (h : o.UpTo o') : (o.closing close result).UpTo (o'.closing close result) := by
  by_cases ho : o = .unfinished
  · rw [ho]
    exact unfinished
  · rw [h ho]
    exact rfl

end Outcome.UpTo

/-- The steps are the same from every state, **up to the bounds of the first**. -/
def Eval.UpTo {α : Type} (run run' : Eval α) : Prop :=
  ∀ st, (run st).UpTo (run' st)

/-- Calls are answered the same way, **up to the bounds of the first**. -/
def Caller.UpTo (call call' : Caller) : Prop :=
  ∀ v args span, (call v args span).UpTo (call' v args span)

section Running

variable {opts : Options} {call call' : Caller} {turns turns' : Nat} {site : Site}

/-! ### Expressions -/

mutual

theorem evaluate_upTo (hcall : call.UpTo call') :
    ∀ e : Expr, (evaluate call site e).UpTo (evaluate call' site e)
  | .literal v span => fun st => by
    rw [evaluate_literal, evaluate_literal]
    exact .rfl
  | .name id span => fun st => by
    rw [evaluate_name, evaluate_name]
    exact .rfl
  | .binary op l r span => fun st => by
    rw [evaluate_binary, evaluate_binary]
    exact (evaluate_upTo hcall l st).andThen fun a st₁ =>
      (evaluate_upTo hcall r st₁).andThen_same
  | .logical op l r span => fun st => by
    rw [evaluate_logical, evaluate_logical]
    refine (evaluate_upTo hcall l st).andThen fun a st₁ => ?_
    split
    · exact .rfl
    · exact evaluate_upTo hcall r st₁
  | .unary op e span => fun st => by
    rw [evaluate_unary, evaluate_unary]
    exact (evaluate_upTo hcall e st).andThen_same
  | .call f args span => fun st => by
    rw [evaluate_call, evaluate_call]
    exact (evaluate_upTo hcall f st).andThen fun v st₁ =>
      (evaluateAll_upTo hcall args st₁).andThen fun vs st₂ => hcall v vs span st₂

theorem evaluateAll_upTo (hcall : call.UpTo call') :
    ∀ es : List Expr, (evaluateAll call site es).UpTo (evaluateAll call' site es)
  | [] => fun st => by
    rw [evaluateAll_nil, evaluateAll_nil]
    exact .rfl
  | e :: es => fun st => by
    rw [evaluateAll_cons, evaluateAll_cons]
    exact (evaluate_upTo hcall e st).andThen fun v st₁ =>
      (evaluateAll_upTo hcall es st₁).andThen_same

end

/-! ### Scopes and loops -/

theorem enclosed_upTo {body body' : Site → Eval Flow}
    (hbody : ∀ inner, (body inner).UpTo (body' inner)) :
    (Eval.enclosed opts site body).UpTo (Eval.enclosed opts site body') := by
  intro st
  rw [enclosed_apply, enclosed_apply, ending_eq_closing, ending_eq_closing]
  exact (hbody _ _).closing

/-- A loop **that may take more turns** does the same turns first. -/
theorem repeatWhile_upTo {test test' : Eval Value} {body body' : Eval Flow}
    (htest : test.UpTo test') (hbody : body.UpTo body') :
    ∀ {k k' : Nat}, k ≤ k' →
      (Eval.repeatWhile test body k).UpTo (Eval.repeatWhile test' body' k')
  | 0, _, _ => fun _ => .unfinished
  | k + 1, k' + 1, hle => fun st => by
    rw [repeatWhile_succ, repeatWhile_succ]
    refine (htest st).andThen fun v st₁ => ?_
    split
    · refine (hbody st₁).andThen fun flow st₂ => ?_
      cases flow with
      | exit v => exact .rfl
      | normal v => exact repeatWhile_upTo htest hbody (Nat.le_of_succ_le_succ hle) st₂
    · exact .rfl

/-! ### Statements -/

mutual

theorem execute_upTo (hcall : call.UpTo call') (hturns : turns ≤ turns') :
    ∀ (s : Stmt) {site : Site},
      (execute opts call turns site s).UpTo (execute opts call' turns' site s)
  | .declare name none span, site => fun st => by
    rw [execute_declare_none, execute_declare_none]
    exact .rfl
  | .declare name (some e) span, site => fun st => by
    rw [execute_declare_some, execute_declare_some]
    exact (evaluate_upTo hcall e st).andThen_same
  | .print e span, site => fun st => by
    rw [execute_print, execute_print]
    exact (evaluate_upTo hcall e st).andThen_same
  | .block b, site => fun st => by
    rw [execute_block, execute_block]
    exact executeBlock_upTo hcall hturns b st
  | .conditional test b none span, site => fun st => by
    rw [execute_conditional, execute_conditional]
    refine (evaluate_upTo hcall test st).andThen fun v st₁ => ?_
    split
    · exact executeBlock_upTo hcall hturns b st₁
    · exact .rfl
  | .conditional test b (some c) span, site => fun st => by
    rw [execute_conditional, execute_conditional]
    refine (evaluate_upTo hcall test st).andThen fun v st₁ => ?_
    split
    · exact executeBlock_upTo hcall hturns b st₁
    · exact executeBlock_upTo hcall hturns c st₁
  | .loop test (.mk body inner) span, site => fun st => by
    rw [execute_loop, execute_loop]
    refine enclosed_upTo (fun inner => ?_) st
    exact repeatWhile_upTo (evaluate_upTo hcall test) (executeAll_upTo hcall hturns body) hturns
  | .function name params body span, site => fun st => by
    rw [execute_function, execute_function]
    exact .rfl
  | .exit e span, site => fun st => by
    rw [execute_exit, execute_exit]
    exact (evaluate_upTo hcall e st).andThen_same
  | .expression e, site => fun st => by
    rw [execute_expression, execute_expression]
    exact (evaluate_upTo hcall e st).andThen_same

theorem executeBlock_upTo (hcall : call.UpTo call') (hturns : turns ≤ turns') :
    ∀ (b : Block) {site : Site},
      (executeBlock opts call turns site b).UpTo (executeBlock opts call' turns' site b)
  | .mk ss span, site => fun st => by
    rw [executeBlock_mk, executeBlock_mk]
    exact enclosed_upTo (fun inner => executeAll_upTo hcall hturns ss) st

theorem executeAll_upTo (hcall : call.UpTo call') (hturns : turns ≤ turns') :
    ∀ (ss : List Stmt) {site : Site} {last : Value},
      (executeAll opts call turns site last ss).UpTo (executeAll opts call' turns' site last ss)
  | [], site, last => fun st => by
    rw [executeAll_nil, executeAll_nil]
    exact .rfl
  | s :: ss, site, last => fun st => by
    rw [executeAll_cons, executeAll_cons]
    refine (execute_upTo hcall hturns s st).andThen fun flow st₁ => ?_
    cases flow with
    | exit v => exact .rfl
    | normal v => exact executeAll_upTo hcall hturns ss st₁

end

/-! ### Calls -/

theorem answer_upTo {runBody runBody' : Site → List Stmt → Eval Flow}
    (hbody : ∀ site ss, (runBody site ss).UpTo (runBody' site ss)) :
    (answer opts runBody).UpTo (answer opts runBody') := by
  intro v args span st
  cases v with
  | closure c =>
    rw [answer_closure, answer_closure]
    split
    · exact .rfl
    · rw [activation_eq_closing, activation_eq_closing]
      exact (hbody _ _ _).closing
  | _ => exact .rfl

/-- Where more calls may nest, the bodies of closures **do the same first**. -/
theorem bodies_upTo (opts : Options) (hturns : turns ≤ turns') :
    ∀ {n n' : Nat}, n ≤ n' → ∀ site ss,
      (bodies opts turns n site ss).UpTo (bodies opts turns' n' site ss)
  | 0, _, _ => fun _ _ _ => .unfinished
  | n + 1, n' + 1, hle => fun site ss => by
    refine executeAll_upTo ?_ hturns ss
    rw [call_eq_answer, call_eq_answer]
    exact answer_upTo (bodies_upTo opts hturns (Nat.le_of_succ_le_succ hle))

theorem call_upTo (opts : Options) (hturns : turns ≤ turns') {n n' : Nat} (hle : n ≤ n') :
    (ScopeScript.call opts turns n).UpTo (ScopeScript.call opts turns' n') := by
  rw [call_eq_answer, call_eq_answer]
  exact answer_upTo (bodies_upTo opts hturns hle)

end Running

/-! ### Programs -/

/-- **Bounds only decide whether a run ends.** A program whose run ends within some bounds comes to
the same end within all bounds that are wider. -/
theorem Interpreter.run_mono {it : Interpreter} {bounds bounds' : Bounds} {p : Program}
    {ended : Except RuntimeError Value × Interpreter} (hturns : bounds.turns ≤ bounds'.turns)
    (hcalls : bounds.calls ≤ bounds'.calls) (h : it.run bounds p = some ended) :
    it.run bounds' p = some ended := by
  have hsame : (it.executeAll bounds it.nextText.1 p.statements).UpTo
      (it.executeAll bounds' it.nextText.1 p.statements) :=
    executeAll_upTo (call_upTo it.options hturns hcalls) hturns p.statements
  rw [Interpreter.run_apply] at h ⊢
  rw [hsame it.state ?_]
  · exact h
  · intro hbound
    rw [hbound] at h
    contradiction

end ScopeScript
