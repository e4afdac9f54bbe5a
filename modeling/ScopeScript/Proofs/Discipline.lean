import ScopeScript.Proofs.Nodes
import ScopeScript.Proofs.Reachable

/-!
# What is known of the frames

What a run keeps may depend on **what is known of the frames** that it has made so far: where they
stand, or what they were made for. A frame stays what it is, so this knowledge only grows. A
`ScopeScript.Discipline` has such knowledge as its worlds, and says of each world which nodes run at
which places, which closures there may be, and which stores. It has to answer for single steps: for
a look-up, a declaration, a scope that is opened, a call that starts, and a scope that is let go of.

Then every run from a state of a world comes to states of worlds that extend it, whether it ends
well or fails (`ScopeScript.Discipline.execute_stays`, `ScopeScript.Discipline.call_stays`), and so
do all moments on the way (`ScopeScript.Discipline.Holds.visits`).
-/

namespace ScopeScript

/-- The node runs in a scope that **the statement opens**. -/
inductive Stmt.Opens : Stmt → Node → Prop
  /-- A statement of a block runs in the scope of the block, but not in the body of a procedure. -/
  | block {s : Stmt} {b : Block} {t : Stmt} (hs : s.declared = none)
    (hb : Node.block b ∈ (Node.stmt s).children) (ht : t ∈ b.statements) : Opens s (.stmt t)
  /-- The test of a loop runs in the scope of the loop. -/
  | test {test : Expr} {b : Block} {span : Span} : Opens (.loop test b span) (.expr test)

/-- A **discipline**: in each world, which nodes run at which places, which closures there may be,
and which stores. -/
structure Discipline where
  /-- What is known of the frames. -/
  World : Type
  /-- More is known. -/
  Extends : World → World → Prop
  /-- The node runs at the place. -/
  Runs : World → Site → Node → Prop
  /-- There may be the closure. -/
  Fits : World → Closure → Prop
  /-- There may be the store. -/
  Sound : World → Store → Prop
  /-- A world extends itself. -/
  refl (w : World) : Extends w w
  /-- Extending is transitive. -/
  trans {w₁ w₂ w₃ : World} : Extends w₁ w₂ → Extends w₂ w₃ → Extends w₁ w₃
  /-- A node goes on running at its place. -/
  runs_mono {w w' : World} {site : Site} {node : Node} :
    Extends w w' → Runs w site node → Runs w' site node
  /-- A closure goes on being one that there may be. -/
  fits_mono {w w' : World} {c : Closure} : Extends w w' → Fits w c → Fits w' c
  /-- The parts of an expression run where it does. -/
  operand {w : World} {site : Site} {e : Expr} {child : Node} :
    Runs w site (.expr e) → child ∈ (Node.expr e).children → Runs w site child
  /-- So does the expression with which a statement starts. -/
  start {w : World} {site : Site} {s : Stmt} {e : Expr} :
    Runs w site (.stmt s) → s.first? = some e → Runs w site (.expr e)
  /-- **A declaration** makes a closure that there may be. -/
  function {w : World} {site : Site} {name : String} {params : List String} {b : Block}
    {span : Span} : Runs w site (.stmt (.function name params b span)) →
      Fits w ⟨site.text, ⟨name, params, b⟩, site.scope⟩
  /-- **A name** stands for a closure that there may be. -/
  lookup {w : World} {site : Site} {id : String} {span : Span} {st : Store} {c : Closure} :
    Runs w site (.expr (.name id span)) → Sound w st →
      st.get? site.scope id = some (.closure c) → Fits w c
  /-- A name is declared. -/
  define {w : World} {site : Site} {s : Stmt} {name : String} {st : Store} {v : Value} :
    Runs w site (.stmt s) → s.declared = some name → Sound w st →
      (∀ c, v = .closure c → Fits w c) → Sound w (st.define site.scope name v)
  /-- **A scope is opened** by a statement: the world extends, and what the statement has there runs
  there. -/
  enter {w : World} {site : Site} {s : Stmt} {st : State} :
    Runs w site (.stmt s) → Sound w st.store →
      ∃ w', Extends w w' ∧ Sound w' (st.enter site.scope).store ∧
        ∀ node, s.Opens node → Runs w' (site.enter st) node
  /-- **A call starts**: the world extends, and the body runs in the scope of the call. -/
  activate {w : World} {c : Closure} {args : List Value} {st : State} :
    Fits w c → Sound w st.store → (∀ a ∈ args, ∀ d, a = .closure d → Fits w d) →
      ∃ w', Extends w w' ∧ Sound w' (st.activate c args).store ∧
        ∀ t ∈ c.decl.body.statements, Runs w' (Site.enter ⟨c.text, c.scope⟩ st) (.stmt t)
  /-- A scope that has been opened is let go of. -/
  clear {w w' : World} {st st' : Store} : Extends w w' → Sound w st → Sound w' st' →
    ∀ s, Sound w' (st'.clear (st.enclose s).1)

namespace Discipline

variable {D : Discipline} {w w' : D.World} {α β : Type}

/-- The value may be there: if it is a closure, that may be. -/
def Allows (D : Discipline) (w : D.World) (v : Value) : Prop :=
  ∀ c, v = .closure c → D.Fits w c

/-- **A step stays within the discipline**: the world after it extends the one before, and there may
be the store. If it has a result, `R` holds of that in the new world. -/
def Stays (D : Discipline) (w : D.World) (R : D.World → α → Prop) (o : Outcome α) : Prop :=
  o.Ends (fun a st => ∃ w', D.Extends w w' ∧ D.Sound w' st.store ∧ R w' a)
    fun _ st => ∃ w', D.Extends w w' ∧ D.Sound w' st.store

/-- The value with which a statement ends may be there. -/
abbrev Flows (D : Discipline) (w : D.World) (flow : Flow) : Prop :=
  D.Allows w flow.value

/-- **Calls stay within the discipline**, if the value called, the arguments and the store may be
there. -/
def Callers (D : Discipline) (call : Caller) : Prop :=
  ∀ w v args span st, D.Sound w st.store → D.Allows w v → (∀ a ∈ args, D.Allows w a) →
    D.Stays w D.Allows (call v args span st)

theorem Allows.mono {v : Value} (h : D.Extends w w') (hv : D.Allows w v) : D.Allows w' v :=
  fun c hc => D.fits_mono h (hv c hc)

theorem allows_of_ne {v : Value} (h : ∀ c, v ≠ .closure c) : D.Allows w v :=
  fun c hc => absurd hc (h c)

theorem allows_null : D.Allows w .null :=
  allows_of_ne nofun

namespace Stays

variable {R : D.World → α → Prop} {Q : D.World → β → Prop}

/-- A result at once. -/
theorem result {a : α} {st : State} (hst : D.Sound w st.store) (ha : R w a) :
    D.Stays w R (.done a st) :=
  ⟨w, D.refl w, hst, ha⟩

/-- An error at once. -/
theorem error {e : RuntimeError} {st : State} (hst : D.Sound w st.store) :
    D.Stays w R (.failed e st) :=
  ⟨w, D.refl w, hst⟩

theorem of_extends {o : Outcome α} (h : D.Extends w w') (ho : D.Stays w' R o) : D.Stays w R o :=
  Outcome.Ends.imp ho (fun _ _ ⟨w₁, h₁, hst, ha⟩ => ⟨w₁, D.trans h h₁, hst, ha⟩)
    fun _ _ ⟨w₁, h₁, hst⟩ => ⟨w₁, D.trans h h₁, hst⟩

/-- **One step after another.** -/
theorem andThen {o : Outcome α} {f : α → State → Outcome β} (h : D.Stays w R o)
    (hf : ∀ w₁ a st₁, D.Extends w w₁ → D.Sound w₁ st₁.store → R w₁ a → D.Stays w₁ Q (f a st₁)) :
    D.Stays w Q (o.andThen f) := by
  refine Outcome.Ends.andThen (Outcome.Ends.imp h ?_ fun _ _ he => he)
  rintro a st₁ ⟨w₁, h₁, hst₁, ha⟩
  exact of_extends h₁ (hf w₁ a st₁ h₁ hst₁ ha)

/-- A state in which the step ends, **with a result or with an error**, is one of a world that
extends. -/
theorem of_state? {o : Outcome α} {st : State} (h : D.Stays w R o) (ho : o.state? = some st) :
    ∃ w', D.Extends w w' ∧ D.Sound w' st.store := by
  cases o with
  | done a st₁ =>
    cases ho
    obtain ⟨w', hw, hst, -⟩ := h
    exact ⟨w', hw, hst⟩
  | failed e st₁ =>
    cases ho
    exact h
  | unfinished => cases ho

theorem of_done {o : Outcome α} {a : α} {st : State} (h : D.Stays w R o) (ho : o = .done a st) :
    ∃ w', D.Extends w w' ∧ D.Sound w' st.store ∧ R w' a := by
  subst ho
  exact h

/-- **The end of a scope**, after a result or after an error. -/
theorem closing {o : Outcome Flow} {close : Option Value → State → State} {result : Flow → α}
    (h : D.Stays w D.Flows o)
    (hclose : ∀ w₁ v st, D.Extends w w₁ → D.Sound w₁ st.store → D.Sound w₁ (close v st).store)
    (hresult : ∀ w₁ flow, D.Flows w₁ flow → R w₁ (result flow)) :
    D.Stays w R (o.closing close result) := by
  cases o with
  | done flow st =>
    obtain ⟨w₁, h₁, hst, hflow⟩ := h
    exact ⟨w₁, h₁, hclose w₁ _ st h₁ hst, hresult w₁ flow hflow⟩
  | failed e st =>
    obtain ⟨w₁, h₁, hst⟩ := h
    exact ⟨w₁, h₁, hclose w₁ none st h₁ hst⟩
  | unfinished => trivial

end Stays

/-- A scope that has been opened may be **let go of or not**. -/
theorem sound_leave {st st' : State} (h : D.Extends w w') (hst : D.Sound w st.store)
    (hst' : D.Sound w' st'.store) (opts : Options) (s : Scope) (survivor : Option Value) :
    D.Sound w' (st'.leave opts (st.store.enclose s).1 survivor).store := by
  rw [State.leave]
  split
  · change D.Sound w' (st'.store.endScope _ _)
    rw [Store.endScope]
    split
    · exact hst'
    · exact D.clear h hst hst' s
  · exact hst'

/-! ### Expressions -/

section Expressions

variable {call : Caller} {site : Site}

theorem ofOperator_stays {st : State} (hst : D.Sound w st.store) {r : Except TypeFault Value}
    (hr : ∀ v, r = .ok v → ∀ c, v ≠ .closure c) (span : Span) :
    D.Stays w D.Allows (Eval.ofOperator span r st) := by
  cases r with
  | ok v => exact .result hst (allows_of_ne (hr v rfl))
  | error fault => exact .error hst

mutual

/-- **An expression that runs stays within the discipline.** -/
theorem evaluate_stays (hcall : D.Callers call) :
    ∀ (e : Expr) {w : D.World} {st : State}, D.Runs w site (.expr e) → D.Sound w st.store →
      D.Stays w D.Allows (evaluate call site e st)
  | .literal v span, w, st, _, hst => by
    rw [evaluate_literal]
    exact .result hst (allows_of_ne fun c => by cases v <;> nofun)
  | .name id span, w, st, he, hst => by
    rw [evaluate_name, Eval.lookup]
    split
    · next v hv => exact .result hst fun c hc => D.lookup he hst (hc ▸ hv)
    · exact .error hst
  | .binary op l r span, w, st, he, hst => by
    rw [evaluate_binary]
    refine (evaluate_stays hcall l (D.operand he (by simp [Node.children])) hst).andThen ?_
    intro w₁ a st₁ h₁ hst₁ _
    refine (evaluate_stays hcall r (D.operand (D.runs_mono h₁ he) ?_) hst₁).andThen ?_
    · simp [Node.children]
    intro w₂ b st₂ _ hst₂ _
    exact ofOperator_stays hst₂ (fun v => BinaryOp.apply_ne_closure) span
  | .logical op l r span, w, st, he, hst => by
    rw [evaluate_logical]
    refine (evaluate_stays hcall l (D.operand he (by simp [Node.children])) hst).andThen ?_
    intro w₁ a st₁ h₁ hst₁ ha
    split
    · exact .result hst₁ ha
    · exact evaluate_stays hcall r
        (D.operand (D.runs_mono h₁ he) (by simp [Node.children])) hst₁
  | .unary op e span, w, st, he, hst => by
    rw [evaluate_unary]
    refine (evaluate_stays hcall e (D.operand he (by simp [Node.children])) hst).andThen ?_
    intro w₁ a st₁ _ hst₁ _
    exact ofOperator_stays hst₁ (fun v => UnaryOp.apply_ne_closure) span
  | .call f args span, w, st, he, hst => by
    rw [evaluate_call]
    refine (evaluate_stays hcall f (D.operand he (by simp [Node.children])) hst).andThen ?_
    intro w₁ v st₁ h₁ hst₁ hv
    refine (evaluateAll_stays hcall args (fun e hmem => ?_) hst₁).andThen ?_
    · exact D.operand (D.runs_mono h₁ he) (List.mem_cons_of_mem _ (List.mem_map_of_mem hmem))
    intro w₂ vs st₂ h₂ hst₂ hvs
    exact hcall w₂ v vs span st₂ hst₂ (hv.mono h₂) hvs

theorem evaluateAll_stays (hcall : D.Callers call) :
    ∀ (es : List Expr) {w : D.World} {st : State}, (∀ e ∈ es, D.Runs w site (.expr e)) →
      D.Sound w st.store →
      D.Stays w (fun w vs => ∀ v ∈ vs, D.Allows w v) (evaluateAll call site es st)
  | [], w, st, _, hst => by
    rw [evaluateAll_nil]
    exact .result hst nofun
  | e :: es, w, st, hes, hst => by
    rw [evaluateAll_cons]
    refine (evaluate_stays hcall e (hes e (List.mem_cons_self ..)) hst).andThen ?_
    intro w₁ v st₁ h₁ hst₁ hv
    have hrest : ∀ e ∈ es, D.Runs w₁ site (.expr e) := fun e he =>
      D.runs_mono h₁ (hes e (List.mem_cons_of_mem _ he))
    refine (evaluateAll_stays hcall es hrest hst₁).andThen ?_
    intro w₂ vs st₂ h₂ hst₂ hvs
    exact .result hst₂ (List.forall_mem_cons.mpr ⟨hv.mono h₂, hvs⟩)

end

end Expressions

/-! ### Scopes and loops -/

section Scopes

variable {opts : Options} {site : Site} {st : State}

/-- **A scope of its own**, from its beginning to its end. -/
theorem enclosed_stays {body : Site → Eval Flow} (hst : D.Sound w st.store) (h : D.Extends w w')
    (hbody : D.Stays w' D.Flows (body (site.enter st) (st.enter site.scope))) :
    D.Stays w D.Flows (Eval.enclosed opts site body st) := by
  rw [enclosed_apply, ending_eq_closing]
  refine Stays.closing (.of_extends h hbody) ?_ fun _ _ hflow => hflow
  exact fun w₁ v st₁ h₁ hst₁ => sound_leave h₁ hst hst₁ opts site.scope v

/-- A loop, **turn by turn**: its test and its body stay within the discipline in every world that
the turns before may have led to. -/
theorem repeatWhile_stays {test : Eval Value} {body : Eval Flow}
    (htest : ∀ w₁ st₁, D.Extends w w₁ → D.Sound w₁ st₁.store → D.Stays w₁ D.Allows (test st₁))
    (hbody : ∀ w₁ st₁, D.Extends w w₁ → D.Sound w₁ st₁.store → D.Stays w₁ D.Flows (body st₁)) :
    ∀ (turns : Nat) {w₁ : D.World} {st : State}, D.Extends w w₁ → D.Sound w₁ st.store →
      D.Stays w₁ D.Flows (Eval.repeatWhile test body turns st)
  | 0, _, _, _, _ => trivial
  | n + 1, w₁, st, h₁, hst => by
    rw [repeatWhile_succ]
    refine (htest w₁ st h₁ hst).andThen ?_
    intro w₂ v st₂ h₂ hst₂ _
    have hw₂ := D.trans h₁ h₂
    split
    · refine (hbody w₂ st₂ hw₂ hst₂).andThen ?_
      intro w₃ flow st₃ h₃ hst₃ hflow
      cases flow with
      | exit v => exact .result hst₃ hflow
      | normal v => exact repeatWhile_stays htest hbody n (D.trans hw₂ h₃) hst₃
    · exact .result hst₂ allows_null

end Scopes

/-! ### Statements -/

section Statements

variable {opts : Options} {call : Caller} {turns : Nat}

mutual

/-- **A statement that runs stays within the discipline.** -/
theorem execute_stays (hcall : D.Callers call) :
    ∀ (s : Stmt) {site : Site} {w : D.World} {st : State}, D.Runs w site (.stmt s) →
      D.Sound w st.store → D.Stays w D.Flows (execute opts call turns site s st)
  | .declare name none span, site, w, st, hs, hst => by
    rw [execute_declare_none]
    exact .result (D.define hs rfl hst allows_null) allows_null
  | .declare name (some e) span, site, w, st, hs, hst => by
    rw [execute_declare_some]
    refine (evaluate_stays hcall e (D.start hs rfl) hst).andThen ?_
    intro w₁ v st₁ h₁ hst₁ hv
    exact .result (D.define (D.runs_mono h₁ hs) rfl hst₁ hv) hv
  | .print e span, site, w, st, hs, hst => by
    rw [execute_print]
    refine (evaluate_stays hcall e (D.start hs rfl) hst).andThen ?_
    intro w₁ v st₁ _ hst₁ _
    exact .result hst₁ allows_null
  | .block b, site, w, st, hs, hst => by
    rw [execute_block]
    obtain ⟨w₁, h₁, hst₁, hruns⟩ := D.enter hs hst
    exact executeBlock_stays hcall b hst h₁ hst₁ fun t ht =>
      hruns _ (.block rfl (by simp [Node.children]) ht)
  | .conditional test b c span, site, w, st, hs, hst => by
    rw [execute_conditional]
    refine (evaluate_stays hcall test (D.start hs rfl) hst).andThen ?_
    intro w₁ v st₁ h₁ hst₁ _
    obtain ⟨w₂, h₂, hst₂, hruns⟩ := D.enter (D.runs_mono h₁ hs) hst₁
    split
    · refine executeBlock_stays hcall b hst₁ h₂ hst₂ fun t ht => hruns _ (.block rfl ?_ ht)
      cases c <;> simp [Node.children]
    · split
      · next c =>
        exact executeBlock_stays hcall c hst₁ h₂ hst₂ fun t ht =>
          hruns _ (.block rfl (by simp [Node.children]) ht)
      · exact .result hst₁ allows_null
  | .loop test (.mk body inner) span, site, w, st, hs, hst => by
    rw [execute_loop]
    -- all turns, and the tests between them, run in one scope
    obtain ⟨w₁, h₁, hst₁, hruns⟩ := D.enter hs hst
    have hbody : ∀ t ∈ body, D.Runs w₁ (site.enter st) (.stmt t) := fun t ht =>
      hruns _ (.block (b := .mk body inner) rfl (by simp [Node.children]) ht)
    refine enclosed_stays hst h₁ (repeatWhile_stays ?_ ?_ turns (D.refl w₁) hst₁)
    · exact fun w₂ st₂ h₂ hst₂ => evaluate_stays hcall test (D.runs_mono h₂ (hruns _ .test)) hst₂
    · exact fun w₂ st₂ h₂ hst₂ =>
        executeAll_stays hcall body (fun t ht => D.runs_mono h₂ (hbody t ht)) hst₂ allows_null
  | .function name params body span, site, w, st, hs, hst => by
    rw [execute_function]
    have hfits : D.Allows w (.closure ⟨site.text, ⟨name, params, body⟩, site.scope⟩) := by
      rintro c ⟨⟩
      exact D.function hs
    exact .result (D.define hs rfl hst hfits) hfits
  | .exit e span, site, w, st, hs, hst => by
    rw [execute_exit]
    refine (evaluate_stays hcall e (D.start hs rfl) hst).andThen ?_
    intro w₁ v st₁ _ hst₁ hv
    exact .result hst₁ hv
  | .expression e, site, w, st, hs, hst => by
    rw [execute_expression]
    refine (evaluate_stays hcall e (D.start hs rfl) hst).andThen ?_
    intro w₁ v st₁ _ hst₁ hv
    exact .result hst₁ hv

theorem executeBlock_stays (hcall : D.Callers call) :
    ∀ (b : Block) {site : Site} {w w' : D.World} {st : State}, D.Sound w st.store →
      D.Extends w w' → D.Sound w' (st.enter site.scope).store →
      (∀ t ∈ b.statements, D.Runs w' (site.enter st) (.stmt t)) →
      D.Stays w D.Flows (executeBlock opts call turns site b st)
  | .mk ss span, site, w, w', st, hst, h, hst₁, hss => by
    rw [executeBlock_mk]
    exact enclosed_stays hst h (executeAll_stays hcall ss hss hst₁ allows_null)

theorem executeAll_stays (hcall : D.Callers call) :
    ∀ (ss : List Stmt) {site : Site} {last : Value} {w : D.World} {st : State},
      (∀ s ∈ ss, D.Runs w site (.stmt s)) → D.Sound w st.store → D.Allows w last →
      D.Stays w D.Flows (executeAll opts call turns site last ss st)
  | [], site, last, w, st, _, hst, hlast => by
    rw [executeAll_nil]
    exact .result hst hlast
  | s :: ss, site, last, w, st, hss, hst, _ => by
    rw [executeAll_cons]
    refine (execute_stays hcall s (hss s (List.mem_cons_self ..)) hst).andThen ?_
    intro w₁ flow st₁ h₁ hst₁ hflow
    have hrest : ∀ s ∈ ss, D.Runs w₁ site (.stmt s) := fun s hs =>
      D.runs_mono h₁ (hss s (List.mem_cons_of_mem _ hs))
    cases flow with
    | exit v => exact .result hst₁ hflow
    | normal v => exact executeAll_stays hcall ss hrest hst₁ hflow

end

end Statements

/-! ### Calls -/

section Calls

variable {opts : Options} {runBody : Site → List Stmt → Eval Flow}

/-- **Bodies stay within the discipline** where they run. -/
def Bodies (D : Discipline) (runBody : Site → List Stmt → Eval Flow) : Prop :=
  ∀ w site ss st, (∀ s ∈ ss, D.Runs w site (.stmt s)) → D.Sound w st.store →
    D.Stays w D.Flows (runBody site ss st)

theorem activation_stays (hbody : D.Bodies runBody) {c : Closure} {args : List Value} {st : State}
    (hst : D.Sound w st.store) (hc : D.Fits w c) (hargs : ∀ a ∈ args, D.Allows w a) :
    D.Stays w D.Allows (Eval.activation opts runBody c args st) := by
  obtain ⟨w₁, h₁, hst₁, hruns⟩ := D.activate hc hst hargs
  rw [activation_eq_closing]
  refine Stays.closing (.of_extends h₁ (hbody w₁ _ _ _ hruns hst₁)) ?_ fun _ _ hflow => hflow
  intro w₂ v st₂ h₂ hst₂
  have hback : D.Sound w₂ st₂.comeBack.store := hst₂
  exact sound_leave h₂ hst hback opts c.scope v

/-- **Answers to calls stay within the discipline** if bodies do. -/
theorem answer_stays (hbody : D.Bodies runBody) : D.Callers (answer opts runBody) := by
  intro w v args span st hst hv hargs
  cases v with
  | closure c =>
    rw [answer_closure]
    split
    · exact .error hst
    · exact activation_stays hbody hst (hv c rfl) hargs
  | builtin =>
    rw [answer_builtin]
    exact .result hst allows_null
  | _ => exact .error hst

/-- Bodies stay within the discipline **however deeply calls may nest**. -/
theorem bodies_stay (D : Discipline) (opts : Options) (turns : Nat) :
    ∀ n, D.Bodies (bodies opts turns n)
  | 0 => fun _ _ _ _ _ _ => trivial
  | n + 1 => fun w site ss st hss hst => by
    refine executeAll_stays ?_ ss hss hst allows_null
    rw [call_eq_answer]
    exact answer_stays (bodies_stay D opts turns n)

/-- **Calls stay within the discipline.** -/
theorem call_stays (D : Discipline) (opts : Options) (turns n : Nat) :
    D.Callers (call opts turns n) := by
  rw [call_eq_answer]
  exact answer_stays (bodies_stay D opts turns n)

end Calls

/-! ### Moments of a run -/

/-- The task is within the discipline. -/
def Assigns (D : Discipline) (w : D.World) : Task → Prop
  | .expression site e => D.Runs w site (.expr e)
  | .expressions site es => ∀ e ∈ es, D.Runs w site (.expr e)
  | .call v args _ => D.Allows w v ∧ ∀ a ∈ args, D.Allows w a
  | .statement site s => D.Runs w site (.stmt s)
  | .statements site ss => ∀ s ∈ ss, D.Runs w site (.stmt s)
  | .loop site test body _ => D.Runs w site (.expr test) ∧ ∀ s ∈ body, D.Runs w site (.stmt s)

/-- The moment is **within the discipline**: its task is, and there may be its store. -/
structure Holds (D : Discipline) (w : D.World) (m : Moment) : Prop where
  /-- The task is within the discipline. -/
  task : D.Assigns w m.task
  /-- There may be the store. -/
  store : D.Sound w m.state.store

section Moments

variable {opts : Options} {turns : Nat} {m m₁ : Moment}

/-- **A moment within the discipline leads to such moments.** -/
theorem Holds.step (hm : D.Holds w m) (h : Moment.Step opts turns m m₁) :
    ∃ w₁, D.Extends w w₁ ∧ D.Holds w₁ m₁ := by
  obtain ⟨htask, hst⟩ := hm
  have hcall := D.call_stays opts turns
  cases h with
  | @operand _ site e first st hfirst =>
    refine ⟨w, D.refl w, D.operand htask ?_, hst⟩
    cases e <;> cases hfirst <;> simp [Node.children]
  | right h | undecided h _ =>
    obtain ⟨w₁, h₁, hst₁, -⟩ := (evaluate_stays (hcall _) _
      (D.operand htask (by simp [Node.children])) hst).of_done h
    exact ⟨w₁, h₁, D.operand (D.runs_mono h₁ htask) (by simp [Node.children]), hst₁⟩
  | arguments h =>
    obtain ⟨w₁, h₁, hst₁, -⟩ := (evaluate_stays (hcall _) _
      (D.operand htask (by simp [Node.children])) hst).of_done h
    exact ⟨w₁, h₁, fun e he => D.operand (D.runs_mono h₁ htask)
      (List.mem_cons_of_mem _ (List.mem_map_of_mem he)), hst₁⟩
  | call h hargs =>
    obtain ⟨w₁, h₁, hst₁, hv⟩ := (evaluate_stays (hcall _) _
      (D.operand htask (by simp [Node.children])) hst).of_done h
    have hes : ∀ e ∈ _, D.Runs w₁ _ (.expr e) := fun e he =>
      D.operand (D.runs_mono h₁ htask) (List.mem_cons_of_mem _ (List.mem_map_of_mem he))
    obtain ⟨w₂, h₂, hst₂, hvs⟩ := (evaluateAll_stays (hcall _) _ hes hst₁).of_done hargs
    exact ⟨w₂, D.trans h₁ h₂, ⟨hv.mono h₂, hvs⟩, hst₂⟩
  | head => exact ⟨w, D.refl w, htask _ (List.mem_cons_self ..), hst⟩
  | tail h =>
    obtain ⟨w₁, h₁, hst₁, -⟩ := (evaluate_stays (hcall _) _ (htask _ (List.mem_cons_self ..))
      hst).of_done h
    exact ⟨w₁, h₁, fun e he => D.runs_mono h₁ (htask e (List.mem_cons_of_mem _ he)), hst₁⟩
  | body =>
    obtain ⟨hv, hargs⟩ := htask
    obtain ⟨w₁, h₁, hst₁, hruns⟩ := D.activate (hv _ rfl) hst hargs
    exact ⟨w₁, h₁, hruns, hst₁⟩
  | value he => exact ⟨w, D.refl w, D.start htask he, hst⟩
  | block =>
    obtain ⟨w₁, h₁, hst₁, hruns⟩ := D.enter htask hst
    exact ⟨w₁, h₁, fun t ht => hruns _ (.block rfl (by simp [Node.children]) ht), hst₁⟩
  | @yes _ _ _ _ c _ _ _ _ h _ =>
    obtain ⟨w₁, h₁, hst₁, -⟩ := (evaluate_stays (hcall _) _ (D.start htask rfl) hst).of_done h
    obtain ⟨w₂, h₂, hst₂, hruns⟩ := D.enter (D.runs_mono h₁ htask) hst₁
    refine ⟨w₂, D.trans h₁ h₂, fun t ht => hruns _ (.block rfl ?_ ht), hst₂⟩
    cases c <;> simp [Node.children]
  | no h _ =>
    obtain ⟨w₁, h₁, hst₁, -⟩ := (evaluate_stays (hcall _) _ (D.start htask rfl) hst).of_done h
    obtain ⟨w₂, h₂, hst₂, hruns⟩ := D.enter (D.runs_mono h₁ htask) hst₁
    exact ⟨w₂, D.trans h₁ h₂, fun t ht => hruns _ (.block rfl (by simp [Node.children]) ht), hst₂⟩
  | loop =>
    obtain ⟨w₁, h₁, hst₁, hruns⟩ := D.enter htask hst
    exact ⟨w₁, h₁, ⟨hruns _ .test, fun t ht => hruns _ (.block rfl (by simp [Node.children]) ht)⟩,
      hst₁⟩
  | first => exact ⟨w, D.refl w, htask _ (List.mem_cons_self ..), hst⟩
  | rest h =>
    obtain ⟨w₁, h₁, hst₁, -⟩ := (execute_stays (hcall _) _ (htask _ (List.mem_cons_self ..))
      hst).of_done h
    exact ⟨w₁, h₁, fun s hs => D.runs_mono h₁ (htask s (List.mem_cons_of_mem _ hs)), hst₁⟩
  | test => exact ⟨w, D.refl w, htask.1, hst⟩
  | turn h _ =>
    obtain ⟨w₁, h₁, hst₁, -⟩ := (evaluate_stays (hcall _) _ htask.1 hst).of_done h
    exact ⟨w₁, h₁, fun s hs => D.runs_mono h₁ (htask.2 s hs), hst₁⟩
  | again h _ hbody =>
    obtain ⟨w₁, h₁, hst₁, -⟩ := (evaluate_stays (hcall _) _ htask.1 hst).of_done h
    have hss : ∀ s ∈ _, D.Runs w₁ _ (.stmt s) := fun s hs => D.runs_mono h₁ (htask.2 s hs)
    obtain ⟨w₂, h₂, hst₂, -⟩ := (executeAll_stays (hcall _) _ hss hst₁ allows_null).of_done hbody
    have hw₂ := D.trans h₁ h₂
    exact ⟨w₂, hw₂, ⟨D.runs_mono hw₂ htask.1, fun s hs => D.runs_mono hw₂ (htask.2 s hs)⟩, hst₂⟩

/-- **Every moment of a run is within the discipline**, if the first is. -/
theorem Holds.visits (hm : D.Holds w m) (h : Moment.Visits opts turns m m₁) :
    ∃ w₁, D.Extends w w₁ ∧ D.Holds w₁ m₁ := by
  induction h with
  | refl => exact ⟨w, D.refl w, hm⟩
  | tail _ hstep ih =>
    obtain ⟨w₁, h₁, hm₁⟩ := ih
    obtain ⟨w₂, h₂, hm₂⟩ := hm₁.step hstep
    exact ⟨w₂, D.trans h₁ h₂, hm₂⟩

/-- **The work of a moment within the discipline ends in a store that there may be**, with a result
or with an error. -/
theorem Holds.endsIn {st' : State} (hm : D.Holds w m) (h : m.EndsIn opts turns st') :
    ∃ w', D.Extends w w' ∧ D.Sound w' st'.store := by
  obtain ⟨n, task, st⟩ := m
  obtain ⟨htask, hst⟩ := hm
  have hcall := D.call_stays opts turns n
  cases task with
  | expression site e => exact (evaluate_stays hcall e htask hst).of_state? h
  | expressions site es => exact (evaluateAll_stays hcall es htask hst).of_state? h
  | call v args span => exact (hcall w v args span st hst htask.1 htask.2).of_state? h
  | statement site s => exact (execute_stays hcall s htask hst).of_state? h
  | statements site ss => exact (executeAll_stays hcall ss htask hst allows_null).of_state? h
  | loop site test body k =>
    have htest : ∀ w₁ st₁, D.Extends w w₁ → D.Sound w₁ st₁.store →
        D.Stays w₁ D.Allows (evaluate (call opts turns n) site test st₁) := fun w₁ st₁ h₁ hst₁ =>
      evaluate_stays hcall test (D.runs_mono h₁ htask.1) hst₁
    have hbody : ∀ w₁ st₁, D.Extends w w₁ → D.Sound w₁ st₁.store →
        D.Stays w₁ D.Flows (executeAll opts (call opts turns n) turns site .null body st₁) :=
      fun w₁ st₁ h₁ hst₁ =>
        executeAll_stays hcall body (fun s hs => D.runs_mono h₁ (htask.2 s hs)) hst₁ allows_null
    exact (repeatWhile_stays htest hbody k (D.refl w) hst).of_state? h

end Moments

/-- **A program that is run within the discipline** leaves a store that there may be, with a result
or with an error. -/
theorem Holds.run {it it' : Interpreter} {bounds : Bounds} {p : Program}
    {r : Except RuntimeError Value} (hm : D.Holds w (it.start bounds p))
    (h : it.run bounds p = some (r, it')) : ∃ w', D.Extends w w' ∧ D.Sound w' it'.state.store :=
  hm.endsIn (Interpreter.endsIn_of_run h)

end Discipline

end ScopeScript
