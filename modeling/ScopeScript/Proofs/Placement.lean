import ScopeScript.Proofs.Origins
import ScopeScript.Proofs.Recoding

/-!
# Code that stands elsewhere

Texts are numbered, and every node of a text knows its span. Neither is looked at by a run, except
to tell closures apart and to say where an error arose. So **code that stands elsewhere runs the same
way**: in the same frames, and with the same lines printed.

A `ScopeScript.Placement` says where texts are put. It acts on closures and on all that holds them:
values, frames, stores and states. What is claimed is that running commutes with it
(`ScopeScript.Regime.evaluate_placed`, `ScopeScript.Regime.execute_placed`,
`ScopeScript.Regime.call_placed`).

For this, closures that differ must not become the same, and that is a matter of which code runs.
A `ScopeScript.Regime` describes it from outside: which nodes run at which places, which closures
there may be, and which stores. It is a discipline (`ScopeScript.Regime.discipline`), so it also
serves for what is to be shown of a single run (`ScopeScript.Regime.Holds.visits`,
`ScopeScript.Regime.Holds.endsIn`).
-/

namespace ScopeScript

/-! ### Texts that are put elsewhere -/

/-- **Where texts are put**: under which number, and how the spans in each of them change. -/
structure Placement where
  /-- The number of a text in its new place. -/
  text : Nat → Nat
  /-- A span of the text in its new place. -/
  span : Nat → Span → Span

/-- Every text stays **where it is**. -/
def Placement.same : Placement :=
  ⟨id, fun _ => id⟩

/-- The same declaration with its spans changed. -/
def FunctionDecl.mapSpan (f : Span → Span) (d : FunctionDecl) : FunctionDecl :=
  ⟨d.name, d.params, d.body.mapSpan f⟩

/-- Where texts are put elsewhere, **declarations are replaced**. -/
def Placement.recoding (π : Placement) : Recoding :=
  ⟨π.text, fun text d => d.mapSpan (π.span text), fun _ _ => rfl, fun _ _ => rfl⟩

/-- The same error with its span changed. -/
def RuntimeError.mapSpan (f : Span → Span) : RuntimeError → RuntimeError
  | unknownName name s => unknownName name (f s)
  | wrongOperands fault s => wrongOperands fault (f s)
  | notCallable shown s => notCallable shown (f s)
  | wrongArgumentCount name expected found s => wrongArgumentCount name expected found (f s)
  | tooManyCalls limit s => tooManyCalls limit (f s)

section Placed

variable (π : Placement)

/-- The closure with its **declaration in its new place**. -/
def Closure.placed (c : Closure) : Closure :=
  ⟨π.text c.text, c.decl.mapSpan (π.span c.text), c.scope⟩

/-- The value with its declaration in its new place, if it is a closure. -/
def Value.placed : Value → Value
  | .closure c => .closure (c.placed π)
  | v => v

/-- The binding with its declaration in its new place. -/
def Binding.placed : Binding → Binding
  | .value v => .value (v.placed π)
  | .own text decl => .own (π.text text) (decl.mapSpan (π.span text))

/-- The frame with all declarations in their new places. -/
def Frame.placed (f : Frame) : Frame :=
  f.map fun entry => (entry.1, entry.2.placed π)

/-- The store with all declarations in their new places. -/
def Store.placed (st : Store) : Store :=
  ⟨st.frames.map (Frame.placed π)⟩

/-- The state with all declarations in their new places. -/
def State.placed (st : State) : State :=
  { st with store := st.store.placed π }

/-- The end of a statement with the declaration in its new place. -/
def Flow.placed : Flow → Flow
  | .normal v => .normal (v.placed π)
  | .exit v => .exit (v.placed π)

/-- The place in the same scope, with its text in its new place. -/
def Site.placed (site : Site) : Site :=
  ⟨π.text site.text, site.scope⟩

end Placed

section Placed

variable {π : Placement}

@[simp] theorem Value.placed_of_ne {v : Value} (h : ∀ c, v ≠ .closure c) : v.placed π = v :=
  Value.recoded_of_ne (ρ := π.recoding) h

@[simp] theorem Value.render_placed (v : Value) : (v.placed π).render = v.render :=
  v.render_recoded (ρ := π.recoding)

@[simp] theorem Value.truthy_placed (v : Value) : (v.placed π).truthy = v.truthy :=
  v.truthy_recoded (ρ := π.recoding)

theorem LogicalOp.decides_placed (op : LogicalOp) (v : Value) :
    op.decides (v.placed π) = op.decides v :=
  op.decides_recoded (ρ := π.recoding) v

theorem Flow.value_placed (flow : Flow) : (flow.placed π).value = flow.value.placed π :=
  flow.value_recoded (ρ := π.recoding)

theorem UnaryOp.apply_placed (op : UnaryOp) (v : Value) : op.apply (v.placed π) = op.apply v :=
  op.apply_recoded (ρ := π.recoding) v

/-- Operators see of closures **only whether they are the same**. -/
theorem BinaryOp.apply_placed {a b : Value}
    (h : ∀ c d, a = .closure c → b = .closure d → (c.placed π).same (d.placed π) = c.same d)
    (op : BinaryOp) : op.apply (a.placed π) (b.placed π) = op.apply a b :=
  BinaryOp.apply_recoded (ρ := π.recoding) h op

@[simp] theorem RuntimeError.span_mapSpan (f : Span → Span) (e : RuntimeError) :
    (e.mapSpan f).span = f e.span := by
  cases e <;> rfl

/-! ### Stores and states in their new places

Of the declarations in a store only the texts and the spans change, and stores look at neither. -/

namespace Store

theorem get?_placed (st : Store) (s : Scope) (name : String) :
    (st.placed π).get? s name = (st.get? s name).map (Value.placed π) :=
  st.get?_recoded (ρ := π.recoding) s name

theorem enclose_scope_placed (st : Store) (s : Scope) :
    ((st.placed π).enclose s).1 = (st.enclose s).1 :=
  st.enclose_scope_recoded (ρ := π.recoding) s

end Store

theorem State.define_placed (st : State) (s : Scope) (name : String) (v : Value) :
    (st.placed π).define s name (v.placed π) = (st.define s name v).placed π :=
  st.define_recoded (ρ := π.recoding) s name v

theorem State.print_placed (st : State) (line : String) :
    (st.placed π).print line = (st.print line).placed π :=
  st.print_recoded (ρ := π.recoding) line

theorem State.enter_placed (st : State) (s : Scope) :
    (st.placed π).enter s = (st.enter s).placed π :=
  st.enter_recoded (ρ := π.recoding) s

theorem State.activate_placed (st : State) (c : Closure) (args : List Value) :
    (st.placed π).activate (c.placed π) (args.map (Value.placed π)) =
      (st.activate c args).placed π :=
  st.activate_recoded (ρ := π.recoding) c args

theorem State.leave_placed (opts : Options) (st : State) (s : Scope) (survivor : Option Value) :
    (st.placed π).leave opts s (survivor.map (Value.placed π)) =
      (st.leave opts s survivor).placed π :=
  st.leave_recoded (ρ := π.recoding) opts s survivor

end Placed

/-! ### What may run where -/

/-- A **regime**: which nodes run at which places, which closures there may be, and which stores.
What a run does from there stays within it. Closures that the placement makes the same are the same
before. -/
structure Regime (π : Placement) where
  /-- The node runs at the place. -/
  Runs : Site → Node → Prop
  /-- There may be the closure. -/
  Fits : Closure → Prop
  /-- There may be the store. -/
  Sound : Store → Prop
  /-- The parts of an expression run where it does. -/
  operand {site : Site} {e : Expr} {child : Node} :
    Runs site (.expr e) → child ∈ (Node.expr e).children → Runs site child
  /-- So does the expression with which a statement starts. -/
  start {site : Site} {s : Stmt} {e : Expr} :
    Runs site (.stmt s) → s.first? = some e → Runs site (.expr e)
  /-- A block runs in a scope of its own, unless it is the body of a procedure. -/
  block {site : Site} {s t : Stmt} {b : Block} {st : State} :
    Runs site (.stmt s) → s.declared = none → Node.block b ∈ (Node.stmt s).children →
      Sound st.store → t ∈ b.statements → Runs (site.enter st) (.stmt t)
  /-- The test of a loop runs in the scope of the loop. -/
  test {site : Site} {test : Expr} {b : Block} {span : Span} {st : State} :
    Runs site (.stmt (.loop test b span)) → Sound st.store → Runs (site.enter st) (.expr test)
  /-- The body of a closure runs in a scope inside its own. -/
  body {c : Closure} {t : Stmt} {st : State} :
    Fits c → Sound st.store → t ∈ c.decl.body.statements →
      Runs (Site.enter ⟨c.text, c.scope⟩ st) (.stmt t)
  /-- A declaration makes a closure that there may be. -/
  function {site : Site} {name : String} {params : List String} {b : Block} {span : Span} :
    Runs site (.stmt (.function name params b span)) →
      Fits ⟨site.text, ⟨name, params, b⟩, site.scope⟩
  /-- A name stands for a closure that there may be. -/
  lookup {site : Site} {id : String} {span : Span} {st : Store} {c : Closure} :
    Runs site (.expr (.name id span)) → Sound st → st.get? site.scope id = some (.closure c) →
      Fits c
  /-- A name is declared. -/
  define {site : Site} {s : Stmt} {name : String} {st : Store} {v : Value} :
    Runs site (.stmt s) → s.declared = some name → Sound st → (∀ c, v = .closure c → Fits c) →
      Sound (st.define site.scope name v)
  /-- A scope is opened. -/
  enclose {st : Store} : Sound st → ∀ s, Sound (st.enclose s).2
  /-- Parameters are bound in the scope of a call. -/
  bind {c : Closure} {args : List Value} {st : Store} :
    Fits c → Sound st → (∀ a ∈ args, ∀ d, a = .closure d → Fits d) →
      Sound ((st.enclose c.scope).2.bindAll (st.enclose c.scope).1 c.decl.params args)
  /-- A scope that has been opened is let go of. -/
  clear {st st' : Store} : Sound st → Sound st' → ∀ s, Sound (st'.clear (st.enclose s).1)
  /-- Closures stay different. -/
  apart {c d : Closure} : Fits c → Fits d → π.text c.text = π.text d.text →
    π.span c.text c.decl.body.span = π.span d.text d.decl.body.span →
      c.text = d.text ∧ c.decl.body.span = d.decl.body.span

namespace Regime

variable {π : Placement} (R : Regime π) {α β : Type}

/-- A regime is **a discipline** that does not depend on the frames, so that there is nothing to be
known of them. -/
def discipline : Discipline where
  World := Unit
  Extends := Eq
  Runs _ := R.Runs
  Fits _ := R.Fits
  Sound _ := R.Sound
  refl := Eq.refl
  trans := Eq.trans
  runs_mono _ h := h
  fits_mono _ h := h
  operand := R.operand
  start := R.start
  function := R.function
  lookup := R.lookup
  define := R.define
  enter {_ site _ _} hs hst := by
    refine ⟨(), rfl, R.enclose hst site.scope, ?_⟩
    rintro _ (⟨hdeclared, hb, ht⟩ | _)
    · exact R.block hs hdeclared hb hst ht
    · exact R.test hs hst
  activate hc hst hargs := ⟨(), rfl, R.bind hc hst hargs, fun _ ht => R.body hc hst ht⟩
  clear _ := R.clear

/-- There may be the value: if it is a closure, there may be the closure. -/
def Allows (v : Value) : Prop :=
  ∀ c, v = .closure c → R.Fits c

/-- The error was **raised in the text**: it is about an expression that runs there, and has its
span. -/
def Raises (text : Nat) (e : RuntimeError) : Prop :=
  ∃ s ex, R.Runs ⟨text, s⟩ (.expr ex) ∧ ex.span = e.span ∧ e.About ex

/-- **Outcomes of the same step in two places**: results and states are put elsewhere, errors are
where the text is in which they were raised. Results are as `A` says, errors as `E` says, and there
may be the store. -/
inductive Meets (A : α → Prop) (move : α → α) (E : Nat → RuntimeError → Prop) :
    Outcome α → Outcome α → Prop
  /-- There is a result in both places. -/
  | done {a : α} {st : State} (hst : R.Sound st.store) (ha : A a) :
    Meets A move E (.done a st) (.done (move a) (st.placed π))
  /-- Both fail. -/
  | failed (text : Nat) (e : RuntimeError) {st : State} (hst : R.Sound st.store) (he : E text e) :
    Meets A move E (.failed e st) (.failed (e.mapSpan (π.span text)) (st.placed π))
  /-- Both come to a bound. -/
  | unfinished : Meets A move E .unfinished .unfinished

/-- Values in two places. -/
abbrev Values : Outcome Value → Outcome Value → Prop :=
  R.Meets R.Allows (Value.placed π) R.Raises

/-- Several values in two places. -/
abbrev Lists : Outcome (List Value) → Outcome (List Value) → Prop :=
  R.Meets (fun vs => ∀ v ∈ vs, R.Allows v) (List.map (Value.placed π)) R.Raises

/-- Ends of statements in two places. -/
abbrev Flows : Outcome Flow → Outcome Flow → Prop :=
  R.Meets (fun flow => R.Allows flow.value) (Flow.placed π) R.Raises

/-- **Calls are answered alike** in two places; an error may be one of the call itself. -/
def Callers (call call' : Caller) : Prop :=
  ∀ text v args span st, R.Sound st.store → R.Allows v → (∀ a ∈ args, R.Allows a) →
    R.Meets R.Allows (Value.placed π)
      (fun text' e => R.Raises text' e ∨
        text' = text ∧ span = e.span ∧ ∀ f args place, e.About (.call f args place))
      (call v args span st)
      (call' (v.placed π) (args.map (Value.placed π)) (π.span text span) (st.placed π))

variable {R} {A : α → Prop} {B : β → Prop} {move : α → α} {move' : β → β}
  {E E' : Nat → RuntimeError → Prop}

theorem Meets.imp {o o' : Outcome α} (h : R.Meets A move E o o')
    (hE : ∀ text e, E text e → E' text e) : R.Meets A move E' o o' := by
  cases h with
  | done hst ha => exact .done hst ha
  | failed text e hst he => exact .failed text e hst (hE text e he)
  | unfinished => exact .unfinished

/-- **One step after another**, in two places. -/
theorem Meets.andThen {o o' : Outcome α} {f f' : α → State → Outcome β} (h : R.Meets A move E o o')
    (hf : ∀ a st, R.Sound st.store → A a →
      R.Meets B move' E (f a st) (f' (move a) (st.placed π))) :
    R.Meets B move' E (o.andThen f) (o'.andThen f') := by
  cases h with
  | done hst ha => exact hf _ _ hst ha
  | failed text e hst he => exact .failed text e hst he
  | unfinished => exact .unfinished

theorem allows_of_ne {v : Value} (h : ∀ c, v ≠ .closure c) : R.Allows v :=
  fun c hc => absurd hc (h c)

theorem allows_null : R.Allows .null :=
  allows_of_ne fun _ h => nomatch h

/-- A result that is no closure is **the same in both places**. -/
theorem Meets.plain {v : Value} {st : State} (hst : R.Sound st.store) (hv : ∀ c, v ≠ .closure c) :
    R.Meets R.Allows (Value.placed π) E (.done v st) (.done v (st.placed π)) := by
  have hdone : R.Meets R.Allows (Value.placed π) E (.done v st) (.done (v.placed π) (st.placed π)) :=
    .done hst (allows_of_ne hv)
  rwa [Value.placed_of_ne hv] at hdone

/-- **Closures are the same** in their new places if they were. -/
theorem same_placed {c d : Closure} (hc : R.Fits c) (hd : R.Fits d) :
    (c.placed π).same (d.placed π) = c.same d := by
  rw [Bool.eq_iff_iff, Closure.same_iff, Closure.same_iff]
  have hbody : ∀ c : Closure, (c.placed π).decl.body.span = π.span c.text c.decl.body.span :=
    fun c => Block.span_mapSpan _ c.decl.body
  rw [hbody, hbody]
  constructor
  · rintro ⟨htext, hname, hspan, hframe⟩
    obtain ⟨htext, hspan⟩ := R.apart hc hd htext hspan
    exact ⟨htext, hname, hspan, hframe⟩
  · rintro ⟨htext, hname, hspan, hframe⟩
    exact ⟨congrArg π.text htext, hname, by rw [htext, hspan], hframe⟩

/-- A scope that has been opened may be **let go of or not**. -/
theorem sound_leave {st st' : State} (h : R.Sound st.store) (h' : R.Sound st'.store)
    (opts : Options) (s : Scope) (survivor : Option Value) :
    R.Sound (st'.leave opts (st.store.enclose s).1 survivor).store :=
  Discipline.sound_leave (D := R.discipline) (w := ()) rfl h h' opts s survivor

/-- **The end of a scope** in two places, after a result or after an error. -/
theorem Meets.closing {o o' : Outcome Flow} {close close' : Option Value → State → State}
    {result : Flow → α} (h : R.Flows o o')
    (hclose : ∀ v st, close' (v.map (Value.placed π)) (st.placed π) = (close v st).placed π)
    (hsound : ∀ v st, R.Sound st.store → R.Sound (close v st).store)
    (hresult : ∀ flow, result (flow.placed π) = move (result flow))
    (hallows : ∀ flow, R.Allows flow.value → A (result flow)) :
    R.Meets A move R.Raises (o.closing close result) (o'.closing close' result) := by
  cases h with
  | @done flow st hst hflow =>
    have hdone := hclose (some flow.value) st
    rw [Option.map_some, ← Flow.value_placed] at hdone
    simp only [Outcome.closing, hdone, hresult]
    exact .done (hsound _ _ hst) (hallows _ hflow)
  | @failed text e st hst he =>
    have hfailed := hclose none st
    rw [Option.map_none] at hfailed
    simp only [Outcome.closing, hfailed]
    exact .failed text e (hsound _ _ hst) he
  | unfinished => exact .unfinished

/-! ### Expressions -/

section Expressions

variable {call call' : Caller} {site : Site}

theorem lookup_placed {id : String} {span : Span} {st : State}
    (he : R.Runs site (.expr (.name id span))) (hst : R.Sound st.store) :
    R.Values (Eval.lookup site.scope id span st)
      (Eval.lookup (site.placed π).scope id (π.span site.text span) (st.placed π)) := by
  have hget : (st.placed π).store.get? (site.placed π).scope id =
      (st.store.get? site.scope id).map (Value.placed π) := st.store.get?_placed site.scope id
  rw [Eval.lookup, Eval.lookup, hget]
  cases hv : st.store.get? site.scope id with
  | some v =>
    refine .done hst ?_
    rintro c rfl
    exact R.lookup he hst hv
  | none =>
    exact .failed site.text (.unknownName id span) hst
      ⟨site.scope, _, he, rfl, .name⟩

theorem ofOperator_placed {st : State} (hst : R.Sound st.store) {r : Except TypeFault Value}
    (hr : ∀ v, r = .ok v → ∀ c, v ≠ .closure c) {ex : Expr} (hex : R.Runs site (.expr ex))
    (habout : ∀ fault place, RuntimeError.About (.wrongOperands fault place) ex) :
    R.Values (Eval.ofOperator ex.span r st)
      (Eval.ofOperator (π.span site.text ex.span) r (st.placed π)) := by
  cases r with
  | ok v => exact .plain hst (hr v rfl)
  | error fault =>
    exact .failed site.text (.wrongOperands fault ex.span) hst
      ⟨site.scope, ex, hex, rfl, habout fault ex.span⟩

mutual

/-- **An expression is evaluated alike** in two places. -/
theorem evaluate_placed (hcall : R.Callers call call') :
    ∀ (e : Expr) {st : State}, R.Runs site (.expr e) → R.Sound st.store →
      R.Values (evaluate call site e st)
        (evaluate call' (site.placed π) (e.mapSpan (π.span site.text)) (st.placed π))
  | .literal v span, st, _, hst => by
    rw [Expr.mapSpan, evaluate_literal, evaluate_literal]
    exact .plain hst v.value_ne_closure
  | .name id span, st, he, hst => by
    rw [Expr.mapSpan, evaluate_name, evaluate_name]
    exact lookup_placed he hst
  | .binary op l r span, st, he, hst => by
    rw [Expr.mapSpan, evaluate_binary, evaluate_binary]
    refine (evaluate_placed hcall l (R.operand he (by simp [Node.children])) hst).andThen ?_
    intro a st hst ha
    refine (evaluate_placed hcall r (R.operand he (by simp [Node.children])) hst).andThen ?_
    intro b st hst hb
    rw [op.apply_placed fun c d hc hd => same_placed (ha c hc) (hb d hd)]
    exact ofOperator_placed hst (fun v => BinaryOp.apply_ne_closure) he fun _ _ => .binary
  | .logical op l r span, st, he, hst => by
    rw [Expr.mapSpan, evaluate_logical, evaluate_logical]
    refine (evaluate_placed hcall l (R.operand he (by simp [Node.children])) hst).andThen ?_
    intro a st hst ha
    rw [op.decides_placed]
    split
    · exact .done hst ha
    · exact evaluate_placed hcall r (R.operand he (by simp [Node.children])) hst
  | .unary op e span, st, he, hst => by
    rw [Expr.mapSpan, evaluate_unary, evaluate_unary]
    refine (evaluate_placed hcall e (R.operand he (by simp [Node.children])) hst).andThen ?_
    intro a st hst ha
    rw [op.apply_placed]
    exact ofOperator_placed hst (fun v => UnaryOp.apply_ne_closure) he fun _ _ => .unary
  | .call f args span, st, he, hst => by
    rw [Expr.mapSpan, evaluate_call, evaluate_call]
    refine (evaluate_placed hcall f (R.operand he (by simp [Node.children])) hst).andThen ?_
    intro v st hst hv
    refine (evaluateAll_placed hcall args (fun e hmem => R.operand he ?_) hst).andThen ?_
    · exact List.mem_cons_of_mem _ (List.mem_map_of_mem hmem)
    intro vs st hst hvs
    refine (hcall site.text v vs span st hst hv hvs).imp ?_
    rintro text e (hraised | ⟨rfl, hspan, habout⟩)
    · exact hraised
    · exact ⟨site.scope, _, he, hspan, habout f args _⟩

theorem evaluateAll_placed (hcall : R.Callers call call') :
    ∀ (es : List Expr) {st : State}, (∀ e ∈ es, R.Runs site (.expr e)) → R.Sound st.store →
      R.Lists (evaluateAll call site es st)
        (evaluateAll call' (site.placed π) (Expr.mapSpanAll (π.span site.text) es) (st.placed π))
  | [], st, _, hst => by
    rw [Expr.mapSpanAll, evaluateAll_nil, evaluateAll_nil]
    exact .done (a := []) hst nofun
  | e :: es, st, hes, hst => by
    rw [Expr.mapSpanAll, evaluateAll_cons, evaluateAll_cons]
    refine (evaluate_placed hcall e (hes e (List.mem_cons_self ..)) hst).andThen ?_
    intro v st hst hv
    have hrest : ∀ e ∈ es, R.Runs site (.expr e) := fun e he => hes e (List.mem_cons_of_mem _ he)
    refine (evaluateAll_placed hcall es hrest hst).andThen ?_
    intro vs st hst hvs
    exact .done (a := v :: vs) hst (List.forall_mem_cons.mpr ⟨hv, hvs⟩)

end

end Expressions

/-! ### Scopes and loops -/

section Scopes

variable {opts : Options} {site : Site}

/-- **A new scope** for code that runs alike in two places. -/
theorem enclosed_placed {body body' : Site → Eval Flow} {st : State} (hst : R.Sound st.store)
    (hbody : R.Flows (body (site.enter st) (st.enter site.scope))
      (body' ((site.enter st).placed π) ((st.enter site.scope).placed π))) :
    R.Flows (Eval.enclosed opts site body st)
      (Eval.enclosed opts (site.placed π) body' (st.placed π)) := by
  have hinner : ((st.placed π).store.enclose (site.placed π).scope).1 =
      (st.store.enclose site.scope).1 := st.store.enclose_scope_placed site.scope
  have henter : (st.placed π).enter (site.placed π).scope = (st.enter site.scope).placed π :=
    st.enter_placed site.scope
  have hsite : (⟨(site.placed π).text, (st.store.enclose site.scope).1⟩ : Site) =
      (site.enter st).placed π := rfl
  have hsite' : (⟨site.text, (st.store.enclose site.scope).1⟩ : Site) = site.enter st := rfl
  rw [enclosed_apply, enclosed_apply, hinner, henter, hsite, hsite', ending_eq_closing,
    ending_eq_closing]
  refine hbody.closing ?_ ?_ ?_ ?_
  · exact fun v st₁ => st₁.leave_placed opts _ v
  · exact fun v st₁ hst₁ => sound_leave hst hst₁ opts _ v
  · exact fun _ => rfl
  · exact fun _ hflow => hflow

/-- A loop, **turn by turn**. -/
theorem repeatWhile_placed {test test' : Eval Value} {body body' : Eval Flow}
    (htest : ∀ st, R.Sound st.store → R.Values (test st) (test' (st.placed π)))
    (hbody : ∀ st, R.Sound st.store → R.Flows (body st) (body' (st.placed π))) :
    ∀ (turns : Nat) (st : State), R.Sound st.store →
      R.Flows (Eval.repeatWhile test body turns st)
        (Eval.repeatWhile test' body' turns (st.placed π))
  | 0, _, _ => .unfinished
  | n + 1, st, hst => by
    rw [repeatWhile_succ, repeatWhile_succ]
    refine (htest st hst).andThen ?_
    intro v st hst _
    rw [Value.truthy_placed]
    split
    · refine (hbody st hst).andThen ?_
      intro flow st hst hflow
      cases flow with
      | exit v => exact .done (a := Flow.exit v) hst hflow
      | normal v => exact repeatWhile_placed htest hbody n st hst
    · exact .done (a := Flow.normal .null) hst allows_null

end Scopes

/-! ### Statements -/

section Statements

variable {opts : Options} {call call' : Caller} {turns : Nat}

mutual

/-- **A statement is run alike** in two places. -/
theorem execute_placed (hcall : R.Callers call call') :
    ∀ (s : Stmt) {site : Site} {st : State}, R.Runs site (.stmt s) → R.Sound st.store →
      R.Flows (execute opts call turns site s st)
        (execute opts call' turns (site.placed π) (s.mapSpan (π.span site.text)) (st.placed π))
  | .declare name none span, site, st, hs, hst => by
    rw [Stmt.mapSpan, execute_declare_none, execute_declare_none]
    have hdefine : (st.placed π).define site.scope name .null =
        (st.define site.scope name .null).placed π := st.define_placed site.scope name .null
    have hscope : (site.placed π).scope = site.scope := rfl
    rw [hscope, hdefine]
    exact .done (a := Flow.normal .null) (R.define hs rfl hst allows_null) allows_null
  | .declare name (some e) span, site, st, hs, hst => by
    rw [Stmt.mapSpan, execute_declare_some, execute_declare_some]
    refine (evaluate_placed hcall e (R.start hs rfl) hst).andThen ?_
    intro v st hst hv
    rw [State.define_placed]
    exact .done (a := Flow.normal v) (R.define hs rfl hst hv) hv
  | .print e span, site, st, hs, hst => by
    rw [Stmt.mapSpan, execute_print, execute_print]
    refine (evaluate_placed hcall e (R.start hs rfl) hst).andThen ?_
    intro v st hst hv
    rw [State.print_placed, Value.render_placed]
    exact .done (a := Flow.normal .null) hst allows_null
  | .block b, site, st, hs, hst => by
    rw [Stmt.mapSpan, execute_block, execute_block]
    exact executeBlock_placed hcall b hst fun t ht =>
      R.block hs rfl (by simp [Node.children]) hst ht
  | .conditional test b none span, site, st, hs, hst => by
    rw [Stmt.mapSpan, execute_conditional, execute_conditional]
    refine (evaluate_placed hcall test (R.start hs rfl) hst).andThen ?_
    intro v st hst hv
    rw [Value.truthy_placed]
    split
    · exact executeBlock_placed hcall b hst fun t ht =>
        R.block hs rfl (by simp [Node.children]) hst ht
    · exact .done (a := Flow.normal .null) hst allows_null
  | .conditional test b (some c) span, site, st, hs, hst => by
    rw [Stmt.mapSpan, execute_conditional, execute_conditional]
    refine (evaluate_placed hcall test (R.start hs rfl) hst).andThen ?_
    intro v st hst hv
    rw [Value.truthy_placed]
    split
    · exact executeBlock_placed hcall b hst fun t ht =>
        R.block hs rfl (by simp [Node.children]) hst ht
    · exact executeBlock_placed hcall c hst fun t ht =>
        R.block hs rfl (by simp [Node.children]) hst ht
  | .loop test (.mk body inner) span, site, st, hs, hst => by
    rw [Stmt.mapSpan, Block.mapSpan, execute_loop, execute_loop]
    -- all turns, and the tests between them, run in one scope
    have hbody : ∀ t ∈ body, R.Runs (site.enter st) (.stmt t) := fun t ht =>
      R.block (b := .mk body inner) hs rfl (by simp [Node.children]) hst ht
    refine enclosed_placed hst
      (repeatWhile_placed ?_ ?_ turns (st.enter site.scope) (R.enclose hst site.scope))
    · exact fun st₁ hst₁ => evaluate_placed hcall test (R.test hs hst) hst₁
    · exact fun st₁ hst₁ => executeAll_placed hcall body hbody hst₁ allows_null
  | .function name params body span, site, st, hs, hst => by
    rw [Stmt.mapSpan, execute_function, execute_function]
    have hfits : R.Allows (.closure ⟨site.text, ⟨name, params, body⟩, site.scope⟩) := by
      rintro c ⟨⟩
      exact R.function hs
    have hdefine := st.define_placed (π := π) site.scope name
      (.closure ⟨site.text, ⟨name, params, body⟩, site.scope⟩)
    have hdone : R.Flows (.done (.normal (.closure ⟨site.text, ⟨name, params, body⟩, site.scope⟩))
        (st.define site.scope name (.closure ⟨site.text, ⟨name, params, body⟩, site.scope⟩))) _ :=
      .done (R.define hs rfl hst hfits) hfits
    rwa [← hdefine] at hdone
  | .exit e span, site, st, hs, hst => by
    rw [Stmt.mapSpan, execute_exit, execute_exit]
    refine (evaluate_placed hcall e (R.start hs rfl) hst).andThen ?_
    intro v st hst hv
    exact .done (a := Flow.exit v) hst hv
  | .expression e, site, st, hs, hst => by
    rw [Stmt.mapSpan, execute_expression, execute_expression]
    refine (evaluate_placed hcall e (R.start hs rfl) hst).andThen ?_
    intro v st hst hv
    exact .done (a := Flow.normal v) hst hv

theorem executeBlock_placed (hcall : R.Callers call call') :
    ∀ (b : Block) {site : Site} {st : State}, R.Sound st.store →
      (∀ t ∈ b.statements, R.Runs (site.enter st) (.stmt t)) →
      R.Flows (executeBlock opts call turns site b st)
        (executeBlock opts call' turns (site.placed π) (b.mapSpan (π.span site.text))
          (st.placed π))
  | .mk ss span, site, st, hst, hss => by
    rw [Block.mapSpan, executeBlock_mk, executeBlock_mk]
    exact enclosed_placed hst
      (executeAll_placed hcall ss hss (R.enclose hst site.scope) allows_null)

theorem executeAll_placed (hcall : R.Callers call call') :
    ∀ (ss : List Stmt) {site : Site} {last : Value} {st : State},
      (∀ s ∈ ss, R.Runs site (.stmt s)) → R.Sound st.store → R.Allows last →
      R.Flows (executeAll opts call turns site last ss st)
        (executeAll opts call' turns (site.placed π) (last.placed π)
          (Stmt.mapSpanAll (π.span site.text) ss) (st.placed π))
  | [], site, last, st, _, hst, hlast => by
    rw [Stmt.mapSpanAll, executeAll_nil, executeAll_nil]
    exact .done (a := Flow.normal last) hst hlast
  | s :: ss, site, last, st, hss, hst, _ => by
    rw [Stmt.mapSpanAll, executeAll_cons, executeAll_cons]
    refine (execute_placed hcall s (hss s (List.mem_cons_self ..)) hst).andThen ?_
    intro flow st hst hflow
    cases flow with
    | exit v => exact .done (a := Flow.exit v) hst hflow
    | normal v =>
      exact executeAll_placed hcall ss (fun s hs => hss s (List.mem_cons_of_mem _ hs)) hst hflow

end

end Statements

/-! ### Calls -/

section Calls

variable {opts : Options} {runBody runBody' : Site → List Stmt → Eval Flow}

/-- A call is refused in its new place **if it was refused before**. -/
theorem refusal?_placed (c : Closure) (args : List Value) (f : Span → Span) (span : Span)
    (depth : Nat) :
    opts.refusal? (c.placed π).decl (args.map (Value.placed π)) (f span) depth =
      (opts.refusal? c.decl args span depth).map (RuntimeError.mapSpan f) := by
  have hparams : (c.placed π).decl.params = c.decl.params := rfl
  rw [Options.refusal?, Options.refusal?, List.length_map, hparams]
  split
  · rfl
  · cases opts.maxCallDepth with
    | none => rfl
    | some limit =>
      simp only
      split <;> rfl

/-- **Bodies are run alike** in two places. -/
def Bodies (R : Regime π) (runBody runBody' : Site → List Stmt → Eval Flow) : Prop :=
  ∀ site ss st, (∀ s ∈ ss, R.Runs site (.stmt s)) → R.Sound st.store →
    R.Flows (runBody site ss st)
      (runBody' (site.placed π) (Stmt.mapSpanAll (π.span site.text) ss) (st.placed π))

theorem activation_placed (hbody : R.Bodies runBody runBody') {c : Closure} {args : List Value}
    {st : State} (hst : R.Sound st.store) (hc : R.Fits c) (hargs : ∀ a ∈ args, R.Allows a) :
    R.Values (Eval.activation opts runBody c args st)
      (Eval.activation opts runBody' (c.placed π) (args.map (Value.placed π)) (st.placed π)) := by
  have hrun := hbody (Site.enter ⟨c.text, c.scope⟩ st) c.decl.body.statements (st.activate c args)
    (fun t ht => R.body hc hst ht) (R.bind hc hst hargs)
  have htext : (Site.enter ⟨c.text, c.scope⟩ st).text = c.text := rfl
  have hstatements : (c.placed π).decl.body.statements =
      Stmt.mapSpanAll (π.span c.text) c.decl.body.statements := by
    rw [Closure.placed, FunctionDecl.mapSpan]
    cases c.decl.body
    rfl
  have hinner : ((st.placed π).store.enclose (c.placed π).scope).1 =
      (st.store.enclose c.scope).1 := st.store.enclose_scope_placed c.scope
  have hsite : Site.enter ⟨(c.placed π).text, (c.placed π).scope⟩ (st.placed π) =
      (Site.enter ⟨c.text, c.scope⟩ st).placed π := congrArg (Site.mk (π.text c.text)) hinner
  rw [htext] at hrun
  rw [activation_eq_closing, activation_eq_closing, hstatements, hinner, State.activate_placed,
    hsite]
  refine hrun.closing ?_ ?_ Flow.value_placed fun _ hflow => hflow
  · exact fun v st₁ => st₁.comeBack.leave_placed opts _ v
  · intro v st₁ hst₁
    have hback : R.Sound st₁.comeBack.store := hst₁
    exact sound_leave hst hback opts _ v

/-- **Calls are answered alike** if bodies are run alike. -/
theorem answer_placed (hbody : R.Bodies runBody runBody') :
    R.Callers (answer opts runBody) (answer opts runBody') := by
  intro text v args span st hst hv hargs
  cases v with
  | closure c =>
    rw [Value.placed, answer_closure, answer_closure, refusal?_placed]
    cases hrefused : opts.refusal? c.decl args span st.depth with
    | some e =>
      have hdepth : opts.refusal? c.decl args span (st.placed π).depth = some e := hrefused
      rw [hdepth]
      exact .failed text e hst (.inr ⟨rfl, Options.refusal?_about hrefused⟩)
    | none =>
      have hdepth : opts.refusal? c.decl args span (st.placed π).depth = none := hrefused
      rw [hdepth]
      exact (activation_placed hbody hst (hv c rfl) hargs).imp fun _ _ => .inl
  | builtin =>
    have hshown : (args.map (Value.placed π)).map Value.render = args.map Value.render := by
      rw [List.map_map]
      exact List.map_congr_left fun v _ => v.render_placed
    have hbuiltin : Value.builtin.placed π = .builtin := rfl
    rw [hbuiltin, answer_builtin, answer_builtin, hshown, State.print_placed]
    exact .plain hst fun _ h => nomatch h
  | _ =>
    exact .failed text (.notCallable _ span) hst
      (.inr ⟨rfl, rfl, fun _ _ _ => .notCallable⟩)

/-- Bodies are run alike **however deeply calls may nest**. -/
theorem bodies_placed (R : Regime π) (opts : Options) (turns : Nat) :
    ∀ n, R.Bodies (bodies opts turns n) (bodies opts turns n)
  | 0 => fun _ _ _ _ _ => .unfinished
  | n + 1 => fun site ss st hss hst => by
    refine executeAll_placed ?_ ss hss hst allows_null
    rw [call_eq_answer]
    exact answer_placed (bodies_placed R opts turns n)

/-- **Calls are answered alike** in two places. -/
theorem call_placed (R : Regime π) (opts : Options) (turns n : Nat) :
    R.Callers (call opts turns n) (call opts turns n) := by
  rw [call_eq_answer]
  exact answer_placed (bodies_placed R opts turns n)

end Calls

/-! ### What a run comes to -/

/-- The moment is **within the regime**: its task is, and there may be its store. -/
abbrev Holds (R : Regime π) (m : Moment) : Prop :=
  R.discipline.Holds () m

section Moments

variable {opts : Options} {turns : Nat} {m m₁ : Moment}

/-- **Every moment of a run is within the regime**, if the first is. -/
theorem Holds.visits (hm : R.Holds m) (h : Moment.Visits opts turns m m₁) : R.Holds m₁ := by
  obtain ⟨_, -, hm₁⟩ := Discipline.Holds.visits hm h
  exact hm₁

/-- **A run that is within the regime ends in a store that there may be**, with a result or with an
error. -/
theorem Holds.endsIn {st' : State} (hm : R.Holds m) (h : m.EndsIn opts turns st') :
    R.Sound st'.store := by
  obtain ⟨_, -, hst⟩ := Discipline.Holds.endsIn hm h
  exact hst

end Moments

/-- **A program that is run within the regime** leaves a store that there may be. -/
theorem Holds.run {it it' : Interpreter} {bounds : Bounds} {p : Program}
    {r : Except RuntimeError Value} (hm : R.Holds (it.start bounds p))
    (h : it.run bounds p = some (r, it')) : R.Sound it'.state.store :=
  hm.endsIn (Interpreter.endsIn_of_run h)

end Regime

end ScopeScript
