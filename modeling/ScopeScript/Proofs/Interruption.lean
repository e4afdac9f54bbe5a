import ScopeScript.Proofs.Footprint
import ScopeScript.Proofs.Timeline

/-!
# Refusing more calls

Two of the options decide which calls of closures are refused. To refuse more of them **has no other
effect** (`ScopeScript.Interpreter.executeAll_interrupted`): a run with stricter options comes out
the same, unless it comes to a call with which the two deal differently; then it fails at the first
such call, and up to there it has done the same.

Which call is the first can be read off the moments of the run with the laxer options, in the order
in which they come. The two runs are compared along them: a step and the same step with stricter
options do the same unless there is a disputed call among the moments of the step, and then the
second fails at the first of them (`ScopeScript.Outcome.Interrupted`).
-/

namespace ScopeScript

/-! ### Stricter options -/

/-- The second options are **stricter**: what they do not refuse, the first do not refuse either,
and otherwise they are the same. -/
structure Options.Stricter (opts opts' : Options) : Prop where
  /-- Scopes that have ended are let go of with both or with neither. -/
  reclaim_eq : opts'.reclaim = opts.reclaim
  /-- A call that is not refused with the second is not refused with the first. -/
  refusal?_eq_none {decl : FunctionDecl} {args : List Value} {span : Span} {depth : Nat} :
    opts'.refusal? decl args span depth = none → opts.refusal? decl args span depth = none

/-- Why the call of a closure is **refused** at a moment. At other moments nothing is refused. -/
def Moment.refusal? (opts : Options) (m : Moment) : Option RuntimeError :=
  match m.task with
  | .call (.closure c) args span => opts.refusal? c.decl args span m.state.depth
  | _ => none

@[simp] theorem Moment.refusal?_call (opts : Options) (n : Nat) (c : Closure) (args : List Value)
    (span : Span) (st : State) : Moment.refusal? opts ⟨n, .call (.closure c) args span, st⟩ =
      opts.refusal? c.decl args span st.depth :=
  rfl

/-- The call at a moment is **disputed**: it is refused with the second options, and with the first
not, or for another reason. -/
def Moment.disputed (opts opts' : Options) (m : Moment) : Bool :=
  m.refusal? opts' ≠ m.refusal? opts

/-- The **first moment in the row** whose call is disputed. -/
def Moment.firstDisputed? (opts opts' : Options) (turns : Nat) (ms : List Moment) :
    Option Moment :=
  (ms.flatMap (Moment.timeline opts turns)).find? (Moment.disputed opts opts')

section Disputes

variable {opts opts' : Options} {turns : Nat} {m m₁ : Moment} {ms : List Moment}

theorem Moment.firstDisputed?_cons : Moment.firstDisputed? opts opts' turns (m :: ms) =
    (Moment.firstDisputed? opts opts' turns [m]).or
      (Moment.firstDisputed? opts opts' turns ms) := by
  simp only [firstDisputed?, List.flatMap_cons, List.find?_append, List.flatMap_nil,
    List.append_nil]

/-- A disputed moment is **the first itself**. -/
theorem Moment.firstDisputed?_of_ne (hm : m.refusal? opts' ≠ m.refusal? opts) :
    Moment.firstDisputed? opts opts' turns [m] = some m := by
  simp [firstDisputed?, timeline_eq m, disputed, hm]

/-- If a moment is not disputed, **its parts decide**. -/
theorem Moment.firstDisputed?_of_eq (hm : m.refusal? opts' = m.refusal? opts) :
    Moment.firstDisputed? opts opts' turns [m] =
      Moment.firstDisputed? opts opts' turns (m.parts opts turns) := by
  simp [firstDisputed?, timeline_eq m, disputed, hm]

/-- A moment that is the first whose call is disputed is one **to which the run comes**. -/
theorem Moment.firstDisputed?_eq_some
    (h : Moment.firstDisputed? opts opts' turns [m] = some m₁) :
    m₁.refusal? opts' ≠ m₁.refusal? opts ∧ Moment.Visits opts turns m m₁ := by
  rw [firstDisputed?, List.flatMap_singleton] at h
  have hdisputed := List.find?_some h
  exact ⟨by simpa [disputed] using hdisputed, mem_timeline_iff.mp (List.mem_of_find?_eq_some h)⟩

/-- None is the first if **no call** to which the run comes is disputed. -/
theorem Moment.firstDisputed?_eq_none :
    Moment.firstDisputed? opts opts' turns [m] = none ↔
      ∀ m₁, Moment.Visits opts turns m m₁ → m₁.refusal? opts' = m₁.refusal? opts := by
  rw [firstDisputed?, List.flatMap_singleton, List.find?_eq_none]
  simp [disputed, mem_timeline_iff]

theorem Options.Stricter.leave_eq (h : opts.Stricter opts') (st : State) (s : Scope)
    (survivor : Option Value) : st.leave opts' s survivor = st.leave opts s survivor := by
  rw [State.leave, State.leave, h.reclaim_eq]

/-- If a call is disputed, **it is refused** with the stricter options. -/
theorem Options.Stricter.exists_refusal? (h : opts.Stricter opts')
    (hm : m.refusal? opts' ≠ m.refusal? opts) : ∃ e, m.refusal? opts' = some e := by
  refine Option.ne_none_iff_exists'.mp fun hnone => hm ?_
  rw [hnone]
  rw [Moment.refusal?] at hnone ⊢
  split at hnone
  · exact (h.refusal?_eq_none hnone).symm
  · rfl

end Disputes

/-! ### A run and the same run with stricter options -/

/-- What had been printed in a state **stays printed**. -/
def Outcome.Grows {α : Type} (st : State) (o : Outcome α) : Prop :=
  o.Leads fun st₁ => st.output.toList <+: st₁.output.toList

/-- **How a run with stricter options comes out**, next to the run with the laxer ones: the same,
unless there is a first disputed call; then it fails for that call, having printed what had been
printed when the call began, and the other run, in which the call may go on, goes on from there. Of
a run without an end nothing is said. -/
inductive Outcome.InterruptedAt {α : Type} (opts opts' : Options) :
    Option Moment → Outcome α → Outcome α → Prop
  /-- The run with the laxer options does not end. -/
  | unfinished {first : Option Moment} {o' : Outcome α} : InterruptedAt opts opts' first .unfinished o'
  /-- No call is disputed. -/
  | same {o : Outcome α} : InterruptedAt opts opts' none o o
  /-- The run fails at the first disputed call. -/
  | stopped {m : Moment} {e : RuntimeError} {st' : State} {o : Outcome α}
    (herror : m.refusal? opts' = some e) (hbegins : m.refusal? opts = none → m.calls ≠ 0)
    (hout : st'.output = m.state.output) (hgrows : o.Grows m.state) :
    InterruptedAt opts opts' (some m) o (.failed e st')

/-- A step and the same step with stricter options, from one state, where the given moments are
**the parts of the step**. -/
structure Outcome.Interrupted {α : Type} (opts opts' : Options) (turns : Nat) (ms : List Moment)
    (st : State) (o o' : Outcome α) : Prop where
  /-- What was printed before stays printed. -/
  grows : o.Grows st
  /-- The second is stopped at the first disputed call. -/
  interruptedAt : Outcome.InterruptedAt opts opts' (Moment.firstDisputed? opts opts' turns ms) o o'

/-- What keeps the frames keeps **the lines printed**. -/
theorem Outcome.Ends.grows {α : Type} {but : Option FrameId} {st : State} {o : Outcome α}
    (h : o.Leads (st.Kept but)) : o.Grows st :=
  h.imp (fun _ _ h => h.output_prefix) fun _ _ h => h.output_prefix

theorem State.output_leave (st : State) (opts : Options) (s : Scope) (survivor : Option Value) :
    (st.leave opts s survivor).output = st.output := by
  rw [State.leave]
  split <;> rfl

namespace Outcome.Grows

variable {α β : Type} {st st₁ : State} {o : Outcome α}

theorem trans (h : o.Grows st₁) (hst : st.output.toList <+: st₁.output.toList) : o.Grows st :=
  h.imp (fun _ _ => hst.trans) fun _ _ => hst.trans

/-- **One step after another** prints after it. -/
theorem andThen {f : α → State → Outcome β} (h : o.Grows st)
    (hf : ∀ a st₁, (f a st₁).Grows st₁) : (o.andThen f).Grows st := by
  cases o with
  | done a st₁ => exact (hf a st₁).trans h
  | failed e st₁ => exact h
  | unfinished => trivial

/-- **A scope and its end**, which prints nothing. -/
theorem closing {close : Option Value → State → State} {result : Flow → β} {o : Outcome Flow}
    (hclose : ∀ survivor st, (close survivor st).output = st.output) (h : o.Grows st) :
    (o.closing close result).Grows st := by
  cases o with
  | done flow st₁ =>
    change st.output.toList <+: (close _ st₁).output.toList
    rw [hclose]
    exact h
  | failed e st₁ =>
    change st.output.toList <+: (close _ st₁).output.toList
    rw [hclose]
    exact h
  | unfinished => trivial

end Outcome.Grows

namespace Outcome.Interrupted

variable {α β : Type} {opts opts' : Options} {turns : Nat} {m : Moment} {ms : List Moment}
  {st : State} {o o' : Outcome α}

/-- What has no parts is done **the same way**. -/
theorem same (hgrows : o.Grows st) : Interrupted opts opts' turns [] st o o :=
  ⟨hgrows, .same⟩

theorem done {a : α} : Interrupted opts opts' turns [] st (.done a st) (.done a st) :=
  same List.prefix_rfl

/-- What is not disputed is done **part by part**. -/
theorem of_parts (hm : m.refusal? opts' = m.refusal? opts)
    (h : Interrupted opts opts' turns (m.parts opts turns) st o o') :
    Interrupted opts opts' turns [m] st o o' := by
  refine ⟨h.grows, ?_⟩
  rw [Moment.firstDisputed?_of_eq hm]
  exact h.interruptedAt

/-- **One step after another**: the first disputed call is in the first step, or else in the
second. -/
theorem andThen {f f' : α → State → Outcome β} {next : α → State → List Moment}
    (h : Interrupted opts opts' turns [m] st o o')
    (hf : ∀ a st₁, Interrupted opts opts' turns (next a st₁) st₁ (f a st₁) (f' a st₁)) :
    Interrupted opts opts' turns (m :: o.onward next) st (o.andThen f) (o'.andThen f') := by
  obtain ⟨hgrows, hsecond⟩ := h
  refine ⟨hgrows.andThen fun a st₁ => (hf a st₁).grows, ?_⟩
  rw [Moment.firstDisputed?_cons]
  generalize Moment.firstDisputed? opts opts' turns [m] = first at hsecond ⊢
  cases hsecond with
  | unfinished => exact .unfinished
  | stopped herror hbegins hout hgrows =>
    exact .stopped herror hbegins hout (hgrows.andThen fun a st₁ => (hf a st₁).grows)
  | same =>
    cases o with
    | done a st₁ => exact (hf a st₁).interruptedAt
    | failed e st₁ => exact .same
    | unfinished => exact .unfinished

/-- One step **after which nothing is called**. -/
theorem andThen_same {f : α → State → Outcome β} (h : Interrupted opts opts' turns [m] st o o')
    (hf : ∀ a st₁, (f a st₁).Grows st₁) :
    Interrupted opts opts' turns [m] st (o.andThen f) (o'.andThen f) := by
  have hnone : (o.onward fun _ _ => []) = [] := by cases o <;> rfl
  have hthen : Interrupted opts opts' turns (m :: o.onward fun _ _ => []) st (o.andThen f)
      (o'.andThen f) := h.andThen fun a st₁ => .same (hf a st₁)
  rwa [hnone] at hthen

/-- **A scope and its end**, which prints nothing. -/
theorem closing {close : Option Value → State → State} {result : Flow → β} {st₀ : State}
    {o o' : Outcome Flow} (hclose : ∀ survivor st, (close survivor st).output = st.output)
    (h : Interrupted opts opts' turns ms st o o') (hst : st.output = st₀.output) :
    Interrupted opts opts' turns ms st₀ (o.closing close result) (o'.closing close result) := by
  obtain ⟨hgrows, hsecond⟩ := h
  refine ⟨(hgrows.closing hclose).trans (hst ▸ List.prefix_rfl), ?_⟩
  generalize Moment.firstDisputed? opts opts' turns ms = first at hsecond ⊢
  cases hsecond with
  | unfinished => exact .unfinished
  | same => exact .same
  | stopped herror hbegins hout hgrows =>
    exact .stopped herror hbegins ((hclose _ _).trans hout) (hgrows.closing hclose)

end Outcome.Interrupted

/-! ### Expressions and statements -/

section Running

variable {opts opts' : Options} {turns n : Nat}

/-- **Calls are stopped at the first disputed one**, where so many may nest. -/
def CallsInterrupted (opts opts' : Options) (turns n : Nat) : Prop :=
  ∀ v args span st, Outcome.Interrupted opts opts' turns [⟨n, .call v args span, st⟩] st
    (call opts turns n v args span st) (call opts' turns n v args span st)

section Expressions

mutual

theorem evaluate_interrupted (hcall : CallsInterrupted opts opts' turns n) :
    ∀ (e : Expr) (site : Site) (st : State),
      Outcome.Interrupted opts opts' turns [⟨n, .expression site e, st⟩] st
        (evaluate (call opts turns n) site e st) (evaluate (call opts' turns n) site e st)
  | .literal v span, site, st => by
    rw [evaluate_literal, evaluate_literal]
    exact .of_parts rfl .done
  | .name id span, site, st => by
    rw [evaluate_name, evaluate_name]
    exact .of_parts rfl (.same (lookup_kept site.scope id span st).grows)
  | .binary op l r span, site, st => by
    rw [evaluate_binary, evaluate_binary]
    refine .of_parts rfl ((evaluate_interrupted hcall l site st).andThen fun a st₁ => ?_)
    exact (evaluate_interrupted hcall r site st₁).andThen_same fun b st₂ =>
      (ofOperator_kept span _ st₂).grows
  | .logical op l r span, site, st => by
    rw [evaluate_logical, evaluate_logical]
    refine .of_parts rfl ((evaluate_interrupted hcall l site st).andThen fun a st₁ => ?_)
    by_cases hop : op.decides a
    · simp only [if_pos hop]
      exact .done
    · simp only [if_neg hop]
      exact evaluate_interrupted hcall r site st₁
  | .unary op e span, site, st => by
    rw [evaluate_unary, evaluate_unary]
    exact .of_parts rfl ((evaluate_interrupted hcall e site st).andThen_same fun a st₁ =>
      (ofOperator_kept span _ st₁).grows)
  | .call f args span, site, st => by
    rw [evaluate_call, evaluate_call]
    refine .of_parts rfl ((evaluate_interrupted hcall f site st).andThen fun v st₁ => ?_)
    refine (evaluateAll_interrupted hcall args site st₁).andThen fun vs st₂ => ?_
    exact hcall v vs span st₂

theorem evaluateAll_interrupted (hcall : CallsInterrupted opts opts' turns n) :
    ∀ (es : List Expr) (site : Site) (st : State),
      Outcome.Interrupted opts opts' turns [⟨n, .expressions site es, st⟩] st
        (evaluateAll (call opts turns n) site es st) (evaluateAll (call opts' turns n) site es st)
  | [], site, st => by
    rw [evaluateAll_nil, evaluateAll_nil]
    exact .of_parts rfl .done
  | e :: es, site, st => by
    rw [evaluateAll_cons, evaluateAll_cons]
    refine .of_parts rfl ((evaluate_interrupted hcall e site st).andThen fun v st₁ => ?_)
    exact (evaluateAll_interrupted hcall es site st₁).andThen_same fun _ _ => List.prefix_rfl

end

end Expressions

section Statements

/-- What is done in a new scope is stopped **where it is stopped by itself**. -/
theorem enclosed_interrupted (hopts : opts.Stricter opts') {m : Moment}
    {body body' : Site → Eval Flow} (site : Site) (st : State)
    (h : Outcome.Interrupted opts opts' turns [m] (st.enter site.scope)
      (body (site.enter st) (st.enter site.scope)) (body' (site.enter st) (st.enter site.scope))) :
    Outcome.Interrupted opts opts' turns [m] st (Eval.enclosed opts site body st)
      (Eval.enclosed opts' site body' st) := by
  rw [enclosed_apply, enclosed_apply, ending_eq_closing, ending_eq_closing]
  simp only [hopts.leave_eq]
  exact h.closing (fun survivor st => State.output_leave st opts _ survivor) rfl

/-- **A loop is stopped in the turn** in which there is a disputed call. -/
theorem repeatWhile_interrupted {test : Expr} {body : List Stmt} {site : Site}
    (htest : ∀ st, Outcome.Interrupted opts opts' turns [⟨n, .expression site test, st⟩] st
      (evaluate (call opts turns n) site test st) (evaluate (call opts' turns n) site test st))
    (hbody : ∀ st, Outcome.Interrupted opts opts' turns [⟨n, .statements site body, st⟩] st
      (executeAll opts (call opts turns n) turns site .null body st)
      (executeAll opts' (call opts' turns n) turns site .null body st)) :
    ∀ (k : Nat) (st : State),
      Outcome.Interrupted opts opts' turns [⟨n, .loop site test body k, st⟩] st
        (Eval.repeatWhile (evaluate (call opts turns n) site test)
          (executeAll opts (call opts turns n) turns site .null body) k st)
        (Eval.repeatWhile (evaluate (call opts' turns n) site test)
          (executeAll opts' (call opts' turns n) turns site .null body) k st)
  | 0, st => ⟨trivial, .unfinished⟩
  | k + 1, st => by
    rw [repeatWhile_succ, repeatWhile_succ]
    refine .of_parts rfl ((htest st).andThen fun v st₁ => ?_)
    by_cases hv : v.truthy
    · simp only [if_pos hv]
      refine (hbody st₁).andThen fun flow st₂ => ?_
      cases flow with
      | normal v' => exact repeatWhile_interrupted htest hbody k st₂
      | exit v' => exact .done
    · simp only [if_neg hv]
      exact .done

mutual

theorem execute_interrupted (hopts : opts.Stricter opts')
    (hcall : CallsInterrupted opts opts' turns n) :
    ∀ (s : Stmt) (site : Site) (st : State),
      Outcome.Interrupted opts opts' turns [⟨n, .statement site s, st⟩] st
        (execute opts (call opts turns n) turns site s st)
        (execute opts' (call opts' turns n) turns site s st)
  | .declare name none span, site, st => by
    rw [execute_declare_none, execute_declare_none]
    exact .of_parts rfl (.same List.prefix_rfl)
  | .declare name (some e) span, site, st => by
    rw [execute_declare_some, execute_declare_some]
    exact .of_parts rfl ((evaluate_interrupted hcall e site st).andThen_same fun _ _ =>
      List.prefix_rfl)
  | .print e span, site, st => by
    rw [execute_print, execute_print]
    exact .of_parts rfl ((evaluate_interrupted hcall e site st).andThen_same fun v st₁ =>
      State.Kept.output_prefix (.print st₁ v.render))
  | .block b, site, st => by
    rw [execute_block, execute_block]
    exact .of_parts rfl (executeBlock_interrupted hopts hcall b site st)
  | .conditional test b c span, site, st => by
    rw [execute_conditional, execute_conditional]
    refine .of_parts rfl ((evaluate_interrupted hcall test site st).andThen fun v st₁ => ?_)
    by_cases hv : v.truthy
    · simp only [if_pos hv, Value.branch]
      exact executeBlock_interrupted hopts hcall b site st₁
    · simp only [if_neg hv, Value.branch]
      cases c with
      | none => exact .done
      | some c => exact executeBlock_interrupted hopts hcall c site st₁
  | .loop test (.mk body inner) span, site, st => by
    rw [execute_loop, execute_loop]
    refine .of_parts rfl (enclosed_interrupted hopts site st ?_)
    exact repeatWhile_interrupted (evaluate_interrupted hcall test _)
      (executeAll_interrupted hopts hcall body .null _) turns _
  | .function name params body span, site, st => by
    rw [execute_function, execute_function]
    exact .of_parts rfl (.same List.prefix_rfl)
  | .exit e span, site, st => by
    rw [execute_exit, execute_exit]
    exact .of_parts rfl ((evaluate_interrupted hcall e site st).andThen_same fun _ _ =>
      List.prefix_rfl)
  | .expression e, site, st => by
    rw [execute_expression, execute_expression]
    exact .of_parts rfl ((evaluate_interrupted hcall e site st).andThen_same fun _ _ =>
      List.prefix_rfl)

theorem executeBlock_interrupted (hopts : opts.Stricter opts')
    (hcall : CallsInterrupted opts opts' turns n) :
    ∀ (b : Block) (site : Site) (st : State),
      Outcome.Interrupted opts opts' turns [Moment.ofBlock n site st b] st
        (executeBlock opts (call opts turns n) turns site b st)
        (executeBlock opts' (call opts' turns n) turns site b st)
  | .mk ss span, site, st => by
    rw [executeBlock_mk, executeBlock_mk]
    exact enclosed_interrupted hopts site st (executeAll_interrupted hopts hcall ss .null _ _)

theorem executeAll_interrupted (hopts : opts.Stricter opts')
    (hcall : CallsInterrupted opts opts' turns n) :
    ∀ (ss : List Stmt) (last : Value) (site : Site) (st : State),
      Outcome.Interrupted opts opts' turns [⟨n, .statements site ss, st⟩] st
        (executeAll opts (call opts turns n) turns site last ss st)
        (executeAll opts' (call opts' turns n) turns site last ss st)
  | [], last, site, st => by
    rw [executeAll_nil, executeAll_nil]
    exact .of_parts rfl .done
  | s :: ss, last, site, st => by
    rw [executeAll_cons, executeAll_cons]
    refine .of_parts rfl ((execute_interrupted hopts hcall s site st).andThen fun flow st₁ => ?_)
    cases flow with
    | normal v => exact executeAll_interrupted hopts hcall ss v site st₁
    | exit v => exact .done

end

end Statements

/-! ### Calls -/

section Calls

variable {c : Closure} {args : List Value} {span : Span} {st : State}

/-- The body of a closure that is called is stopped **where it is stopped by itself**, if the call
is not refused. -/
theorem call_closure_interrupted (hopts : opts.Stricter opts')
    (hcall : CallsInterrupted opts opts' turns n)
    (hagreed : opts'.refusal? c.decl args span st.depth = opts.refusal? c.decl args span st.depth) :
    Outcome.Interrupted opts opts' turns [⟨n + 1, .call (.closure c) args span, st⟩] st
      (call opts turns (n + 1) (.closure c) args span st)
      (call opts' turns (n + 1) (.closure c) args span st) := by
  refine .of_parts hagreed ?_
  rw [call_eq_answer, call_eq_answer, answer_closure, answer_closure, hagreed, Moment.parts,
    Moment.ofCall]
  cases opts.refusal? c.decl args span st.depth with
  | some e => exact .same List.prefix_rfl
  | none =>
    simp only [activation_eq_closing, if_true, hopts.leave_eq]
    refine (executeAll_interrupted hopts hcall c.decl.body.statements .null _ _).closing ?_ rfl
    exact fun survivor st' => State.output_leave _ opts _ survivor

/-- Where no call may nest, a call of a closure is refused **the same way**, or does not end. -/
theorem call_closure_interrupted_zero
    (hagreed : opts'.refusal? c.decl args span st.depth = opts.refusal? c.decl args span st.depth) :
    Outcome.Interrupted opts opts' turns [⟨0, .call (.closure c) args span, st⟩] st
      (call opts turns 0 (.closure c) args span st)
      (call opts' turns 0 (.closure c) args span st) := by
  refine .of_parts hagreed ?_
  rw [call_eq_answer, call_eq_answer, answer_closure, answer_closure, hagreed]
  cases opts.refusal? c.decl args span st.depth with
  | some e => exact .same List.prefix_rfl
  | none => exact ⟨trivial, .unfinished⟩

/-- A disputed call **is stopped itself**, unless it would not end for the bounds. -/
theorem call_closure_stopped (hopts : opts.Stricter opts')
    (hdisputed : opts'.refusal? c.decl args span st.depth ≠
      opts.refusal? c.decl args span st.depth) :
    Outcome.Interrupted opts opts' turns [⟨n, .call (.closure c) args span, st⟩] st
      (call opts turns n (.closure c) args span st)
      (call opts' turns n (.closure c) args span st) := by
  have hgrows : (call opts turns n (.closure c) args span st).Grows st :=
    (call_keeps opts turns n _ args span st).grows
  have hm : Moment.refusal? opts' ⟨n, .call (.closure c) args span, st⟩ ≠
      Moment.refusal? opts ⟨n, .call (.closure c) args span, st⟩ := hdisputed
  obtain ⟨e, herror⟩ := hopts.exists_refusal? hm
  have hstrict : call opts' turns n (.closure c) args span st = .failed e st := by
    rw [Moment.refusal?_call] at herror
    rw [call_eq_answer, answer_closure, herror]
  refine ⟨hgrows, ?_⟩
  rw [Moment.firstDisputed?_of_ne hm, hstrict]
  by_cases hbegins : opts.refusal? c.decl args span st.depth = none ∧ n = 0
  · obtain ⟨hnone, rfl⟩ := hbegins
    rw [call_eq_answer, answer_closure, hnone]
    exact .unfinished
  · exact .stopped herror (fun hnone hn => hbegins ⟨hnone, hn⟩) rfl hgrows

/-- **Calls are stopped at the first disputed one**, however many may nest. -/
theorem call_interrupted (hopts : opts.Stricter opts') (turns : Nat) :
    ∀ n, CallsInterrupted opts opts' turns n
  | n, v, args, span, st => by
    have hgrows := (call_keeps opts turns n v args span st).grows
    cases v with
    | closure c =>
      by_cases hagreed : opts'.refusal? c.decl args span st.depth =
          opts.refusal? c.decl args span st.depth
      · cases n with
        | zero => exact call_closure_interrupted_zero hagreed
        | succ n => exact call_closure_interrupted hopts (call_interrupted hopts turns n) hagreed
      · exact call_closure_stopped hopts hagreed
    | _ =>
      rw [call_eq_answer] at hgrows ⊢
      rw [call_eq_answer]
      exact .of_parts rfl (.same hgrows)

end Calls

end Running

/-! ### Programs -/

/-- The same interpreter **with other options**. -/
def Interpreter.withOptions (it : Interpreter) (opts : Options) : Interpreter :=
  { it with options := opts }

/-- **A program is stopped** at the first disputed call. -/
theorem Interpreter.executeAll_interrupted (it : Interpreter) {opts' : Options}
    (hopts : it.options.Stricter opts') (bounds : Bounds) (p : Program) :
    Outcome.Interrupted it.options opts' bounds.turns [it.start bounds p] it.state
      (it.executeAll bounds it.nextText.1 p.statements it.state)
      ((it.withOptions opts').executeAll bounds (it.withOptions opts').nextText.1 p.statements
        (it.withOptions opts').state) :=
  ScopeScript.executeAll_interrupted hopts (call_interrupted hopts bounds.turns bounds.calls)
    p.statements .null it.nextText.1 it.state

end ScopeScript
