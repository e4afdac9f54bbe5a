import Mathlib.Logic.Relation
import ScopeScript.Proofs.Simulation

/-!
# What a run comes to

The outcome of a run does not say what happened on the way. This file names the **moments** of a
run: what is about to be done, in which state, and how many calls may still nest. One moment leads
to another when the work of the first has that of the second as a part, so that from a moment one
comes to everything that is done before its work has ended, whether it ends well, fails, or does not
end.

Runs that correspond come to moments that do (`ScopeScript.Simulation.visits_meet`).
-/

namespace ScopeScript

/-! ### Moments -/

/-- What a run is **about to do**. -/
inductive Task where
  /-- To evaluate an expression. -/
  | expression (site : Site) (e : Expr)
  /-- To evaluate several expressions. -/
  | expressions (site : Site) (es : List Expr)
  /-- To answer a call. -/
  | call (v : Value) (args : List Value) (span : Span)
  /-- To run a statement. -/
  | statement (site : Site) (s : Stmt)
  /-- To run several statements. -/
  | statements (site : Site) (ss : List Stmt)
  /-- To run a loop, in its scope, for so many turns at most. -/
  | loop (site : Site) (test : Expr) (body : List Stmt) (turns : Nat)

/-- A **moment** of a run. -/
structure Moment where
  /-- How deeply calls may still nest. -/
  calls : Nat
  /-- What is about to be done. -/
  task : Task
  /-- The state. -/
  state : State

/-- The part of an expression that is **evaluated first**. -/
def Expr.first? : Expr → Option Expr
  | .binary _ l _ _ => some l
  | .logical _ l _ _ => some l
  | .unary _ e _ => some e
  | .call f _ _ => some f
  | _ => none

/-- The expression with which a statement **starts**. -/
def Stmt.first? : Stmt → Option Expr
  | .declare _ e _ => e
  | .print e _ => some e
  | .conditional test _ _ _ => some test
  | .exit e _ => some e
  | .expression e => some e
  | _ => none

section Steps

variable (opts : Options) (turns : Nat)

/-- **One moment leads to another**: the work of the first has that of the second as a part, which
comes next or after other parts. -/
inductive Moment.Step : Moment → Moment → Prop
  /-- Expressions start with their first part. -/
  | operand {n site e first st} (h : e.first? = some first) :
    Step ⟨n, .expression site e, st⟩ ⟨n, .expression site first, st⟩
  /-- The right operand comes after the left one. -/
  | right {n site op l r span st a st₁}
    (h : evaluate (call opts turns n) site l st = .done a st₁) :
    Step ⟨n, .expression site (.binary op l r span), st⟩ ⟨n, .expression site r, st₁⟩
  /-- So it does if the left one does not decide. -/
  | undecided {n site op l r span st a st₁}
    (h : evaluate (call opts turns n) site l st = .done a st₁) (hop : op.decides a = false) :
    Step ⟨n, .expression site (.logical op l r span), st⟩ ⟨n, .expression site r, st₁⟩
  /-- Arguments come after the callee. -/
  | arguments {n site f args span st v st₁}
    (h : evaluate (call opts turns n) site f st = .done v st₁) :
    Step ⟨n, .expression site (.call f args span), st⟩ ⟨n, .expressions site args, st₁⟩
  /-- The call comes after its arguments. -/
  | call {n site f args span st v st₁ vs st₂}
    (h : evaluate (call opts turns n) site f st = .done v st₁)
    (hargs : evaluateAll (call opts turns n) site args st₁ = .done vs st₂) :
    Step ⟨n, .expression site (.call f args span), st⟩ ⟨n, .call v vs span, st₂⟩
  /-- Several expressions start with the first. -/
  | head {n site e es st} :
    Step ⟨n, .expressions site (e :: es), st⟩ ⟨n, .expression site e, st⟩
  /-- The others come after it. -/
  | tail {n site e es st v st₁} (h : evaluate (call opts turns n) site e st = .done v st₁) :
    Step ⟨n, .expressions site (e :: es), st⟩ ⟨n, .expressions site es, st₁⟩
  /-- The body of a closure that is called. -/
  | body {n c args span st}
    (harity : ¬ (opts.strictArity ∧ args.length ≠ c.decl.params.length))
    (hlimit : ∀ limit, opts.maxCallDepth = some limit → st.depth < limit) :
    Step ⟨n + 1, .call (.closure c) args span, st⟩
      ⟨n, .statements (Site.enter ⟨c.text, c.scope⟩ st) c.decl.body.statements, st.activate c args⟩
  /-- Statements start with their expression. -/
  | value {n site s e st} (h : s.first? = some e) :
    Step ⟨n, .statement site s, st⟩ ⟨n, .expression site e, st⟩
  /-- The statements of a block. -/
  | block {n site b st} :
    Step ⟨n, .statement site (.block b), st⟩
      ⟨n, .statements (site.enter st) b.statements, st.enter site.scope⟩
  /-- The first branch, if the test holds. -/
  | yes {n site test b c span st v st₁}
    (h : evaluate (call opts turns n) site test st = .done v st₁) (hv : v.truthy = true) :
    Step ⟨n, .statement site (.conditional test b c span), st⟩
      ⟨n, .statements (site.enter st₁) b.statements, st₁.enter site.scope⟩
  /-- The other branch, if the test does not hold. -/
  | no {n site test b c span st v st₁}
    (h : evaluate (call opts turns n) site test st = .done v st₁) (hv : v.truthy = false) :
    Step ⟨n, .statement site (.conditional test b (some c) span), st⟩
      ⟨n, .statements (site.enter st₁) c.statements, st₁.enter site.scope⟩
  /-- The turns of a loop, in its scope. -/
  | loop {n site test b span st} :
    Step ⟨n, .statement site (.loop test b span), st⟩
      ⟨n, .loop (site.enter st) test b.statements turns, st.enter site.scope⟩
  /-- Several statements start with the first. -/
  | first {n site s ss st} :
    Step ⟨n, .statements site (s :: ss), st⟩ ⟨n, .statement site s, st⟩
  /-- The others come after it, unless it leaves the call. -/
  | rest {n site s ss st v st₁}
    (h : execute opts (call opts turns n) turns site s st = .done (.normal v) st₁) :
    Step ⟨n, .statements site (s :: ss), st⟩ ⟨n, .statements site ss, st₁⟩
  /-- A turn starts with the test. -/
  | test {n site test body k st} :
    Step ⟨n, .loop site test body (k + 1), st⟩ ⟨n, .expression site test, st⟩
  /-- The body comes after the test, if it holds. -/
  | turn {n site test body k st v st₁}
    (h : evaluate (call opts turns n) site test st = .done v st₁) (hv : v.truthy = true) :
    Step ⟨n, .loop site test body (k + 1), st⟩ ⟨n, .statements site body, st₁⟩
  /-- The next turn comes after the body, unless it leaves the call. -/
  | again {n site test body k st v st₁ v' st₂}
    (h : evaluate (call opts turns n) site test st = .done v st₁) (hv : v.truthy = true)
    (hbody : executeAll opts (call opts turns n) turns site .null body st₁ =
      .done (.normal v') st₂) :
    Step ⟨n, .loop site test body (k + 1), st⟩ ⟨n, .loop site test body k, st₂⟩

/-- **A run that starts at one moment comes to another.** -/
def Moment.Visits : Moment → Moment → Prop :=
  Relation.ReflTransGen (Moment.Step opts turns)

end Steps

/-- The moment when an interpreter **starts a program**. -/
def Interpreter.start (it : Interpreter) (bounds : Bounds) (p : Program) : Moment :=
  ⟨bounds.calls, .statements it.nextText.1 p.statements, it.state⟩

/-- **The run looks a name up**: at a place of the program, from a scope, in a store. -/
def Interpreter.LooksUp (it : Interpreter) (bounds : Bounds) (p : Program) (site : Site)
    (name : String) (span : Span) (store : Store) : Prop :=
  ∃ n st, st.store = store ∧ Moment.Visits it.options bounds.turns (it.start bounds p)
    ⟨n, .expression site (.name name span), st⟩

section Origins

variable {opts : Options} {turns n n₀ : Nat} {site₀ : Site} {ss : List Stmt} {st st₀ : State}

/-- A call in a run of statements **comes from a call expression**. -/
theorem Moment.Visits.exists_call {v : Value} {args : List Value} {span : Span}
    (h : Moment.Visits opts turns ⟨n₀, .statements site₀ ss, st₀⟩ ⟨n, .call v args span, st⟩) :
    ∃ site f es st', Moment.Visits opts turns ⟨n₀, .statements site₀ ss, st₀⟩
      ⟨n, .expression site (.call f es span), st'⟩ := by
  rcases Relation.ReflTransGen.cases_tail h with h | ⟨m, hvisits, hstep⟩
  · cases h
  · cases hstep with
    | call => exact ⟨_, _, _, _, hvisits⟩

/-- A loop in a run of statements **comes from a loop statement**, whatever turns it has taken. -/
theorem Moment.Visits.exists_loop {m : Moment}
    (h : Moment.Visits opts turns ⟨n₀, .statements site₀ ss, st₀⟩ m) :
    ∀ {site test body k}, m = ⟨n, .loop site test body k, st⟩ →
      ∃ site' b span st', b.statements = body ∧
        Moment.Visits opts turns ⟨n₀, .statements site₀ ss, st₀⟩
          ⟨n, .statement site' (.loop test b span), st'⟩ := by
  induction h generalizing st with
  | refl => rintro _ _ _ _ ⟨⟩
  | tail hvisits hstep ih =>
    rintro _ _ _ _ rfl
    cases hstep with
    | loop => exact ⟨_, _, _, _, rfl, hvisits⟩
    | again => exact ih rfl

end Origins

/-! ### Runs that correspond -/

namespace Simulation

variable {opts opts' : Options} {sim : Simulation opts opts'} {w : sim.World} {turns : Nat}

/-- Tasks that correspond: the same work, on what corresponds. -/
inductive Tasks (w : sim.World) : Task → Task → Prop
  /-- One expression. -/
  | expression {site site' : Site} (hs : sim.Sites w site site') (e : Expr) :
    Tasks w (.expression site e) (.expression site' e)
  /-- Several expressions. -/
  | expressions {site site' : Site} (hs : sim.Sites w site site') (es : List Expr) :
    Tasks w (.expressions site es) (.expressions site' es)
  /-- A call. -/
  | call {v v' : Value} {args args' : List Value} (hv : sim.Values w v v')
    (hargs : List.Forall₂ (sim.Values w) args args') (span : Span) :
    Tasks w (.call v args span) (.call v' args' span)
  /-- One statement. -/
  | statement {site site' : Site} (hs : sim.Sites w site site') (s : Stmt) :
    Tasks w (.statement site s) (.statement site' s)
  /-- Several statements. -/
  | statements {site site' : Site} (hs : sim.Sites w site site') (ss : List Stmt) :
    Tasks w (.statements site ss) (.statements site' ss)
  /-- A loop. -/
  | loop {site site' : Site} (hs : sim.Sites w site site') (test : Expr) (body : List Stmt)
    (turns : Nat) : Tasks w (.loop site test body turns) (.loop site' test body turns)

/-- Moments that correspond. -/
structure Moments (w : sim.World) (m m' : Moment) : Prop where
  /-- As many calls may still nest. -/
  calls_eq : m.calls = m'.calls
  /-- The tasks correspond. -/
  task : sim.Tasks w m.task m'.task
  /-- The states correspond. -/
  state : sim.States w m.state m'.state

/-- What corresponds to an outcome with a result **has a result**. -/
theorem Meet.of_done {α : Type} {R : sim.World → α → α → Prop} {a : α} {st : State}
    {o o' : Outcome α} (h : sim.Meet w R o o') (ho : o = .done a st) :
    ∃ w' a' st', o' = .done a' st' ∧ sim.Extends w w' ∧ sim.States w' st st' ∧ R w' a a' := by
  subst ho
  cases h with
  | done h₁ hst ha => exact ⟨_, _, _, rfl, h₁, hst, ha⟩

/-- What corresponds to an outcome with an error **has the same error**. -/
theorem Meet.of_failed {α : Type} {R : sim.World → α → α → Prop} {e : RuntimeError} {st : State}
    {o o' : Outcome α} (h : sim.Meet w R o o') (ho : o = .failed e st) :
    ∃ w' st', o' = .failed e st' ∧ sim.Extends w w' ∧ sim.States w' st st' := by
  subst ho
  cases h with
  | failed h₁ hst => exact ⟨_, _, rfl, h₁, hst⟩

theorem States.enter_site {site site' : Site} {st st' : State} (hst : sim.States w st st')
    (hs : sim.Sites w site site') :
    ∃ w', sim.Sites w' (site.enter st) (site'.enter st') ∧
      sim.States w' (st.enter site.scope) (st'.enter site'.scope) := by
  obtain ⟨w₁, -, hst₁, hs₁, -⟩ := hst.enter hs.scopes
  exact ⟨w₁, ⟨hs.text_eq, hs₁⟩, hst₁⟩

/-- **Where one run goes, the other goes too.** -/
theorem step_meet {m m₁ m' : Moment} (h : Moment.Step opts turns m m₁) (hm : sim.Moments w m m') :
    ∃ w₁ m₁', Moment.Step opts' turns m' m₁' ∧ sim.Moments w₁ m₁ m₁' := by
  obtain ⟨n, task, st⟩ := m
  obtain ⟨n', task', st'⟩ := m'
  obtain ⟨hcalls, htask, hst⟩ := hm
  obtain rfl : n = n' := hcalls
  -- whatever comes before the part has corresponding outcomes
  have hexpr : ∀ site site' e st st', sim.Sites w site site' → sim.States w st st' →
      sim.Meet w sim.Values (evaluate (call opts turns n) site e st)
        (evaluate (call opts' turns n) site' e st') :=
    fun _ _ e _ _ => evaluate_meet (call_meet sim turns n) e
  cases h with
  | operand h =>
    cases htask with
    | expression hs e => exact ⟨w, _, .operand h, rfl, .expression hs _, hst⟩
  | right h =>
    cases htask with
    | expression hs e =>
      obtain ⟨w₁, a', st₁', h', hw, hst₁, -⟩ := (hexpr _ _ _ _ _ hs hst).of_done h
      exact ⟨w₁, _, .right h', rfl, .expression (hs.mono hw) _, hst₁⟩
  | undecided h hop =>
    cases htask with
    | expression hs e =>
      obtain ⟨w₁, a', st₁', h', hw, hst₁, ha⟩ := (hexpr _ _ _ _ _ hs hst).of_done h
      exact ⟨w₁, _, .undecided h' (ha.decides_eq _ ▸ hop), rfl, .expression (hs.mono hw) _, hst₁⟩
  | arguments h =>
    cases htask with
    | expression hs e =>
      obtain ⟨w₁, v', st₁', h', hw, hst₁, -⟩ := (hexpr _ _ _ _ _ hs hst).of_done h
      exact ⟨w₁, _, .arguments h', rfl, .expressions (hs.mono hw) _, hst₁⟩
  | call h hargs =>
    cases htask with
    | expression hs e =>
      obtain ⟨w₁, v', st₁', h', hw, hst₁, hv⟩ := (hexpr _ _ _ _ _ hs hst).of_done h
      obtain ⟨w₂, vs', st₂', hargs', hw₂, hst₂, hvs⟩ :=
        (evaluateAll_meet (call_meet sim turns n) _ (hs.mono hw) hst₁).of_done hargs
      exact ⟨w₂, _, .call h' hargs', rfl, .call (hv.mono hw₂) hvs _, hst₂⟩
  | head =>
    cases htask with
    | expressions hs es => exact ⟨w, _, .head, rfl, .expression hs _, hst⟩
  | tail h =>
    cases htask with
    | expressions hs es =>
      obtain ⟨w₁, v', st₁', h', hw, hst₁, -⟩ := (hexpr _ _ _ _ _ hs hst).of_done h
      exact ⟨w₁, _, .tail h', rfl, .expressions (hs.mono hw) _, hst₁⟩
  | @body n c args span st harity hlimit =>
    cases htask with
    | call hv hargs span =>
      cases hv with
      | plain h => exact absurd rfl (h _)
      | @closure text decl s s' hs =>
        obtain ⟨w₁, hw, hst₁, hs₁, -⟩ := hst.enter hs
        have hsites : sim.Sites w₁ (Site.enter ⟨text, s⟩ st) (Site.enter ⟨text, s'⟩ st') :=
          ⟨rfl, hs₁⟩
        -- the call is not refused in the other run either
        refine ⟨w₁, _, .body ?_ ?_, rfl, .statements hsites _, ?_⟩
        · rw [← sim.strictArity_eq, ← hargs.length_eq]
          exact harity
        · rw [← sim.maxCallDepth_eq, ← hst.depth_eq]
          exact hlimit
        · exact .activate hst₁ hs₁ text decl (hargs.imp fun _ _ h => h.mono hw)
  | value h =>
    cases htask with
    | statement hs s => exact ⟨w, _, .value h, rfl, .expression hs _, hst⟩
  | block =>
    cases htask with
    | statement hs s =>
      obtain ⟨w₁, hs₁, hst₁⟩ := hst.enter_site hs
      exact ⟨w₁, _, .block, rfl, .statements hs₁ _, hst₁⟩
  | yes h hv =>
    cases htask with
    | statement hs s =>
      obtain ⟨w₁, v', st₁', h', hw, hst₁, hvv⟩ := (hexpr _ _ _ _ _ hs hst).of_done h
      obtain ⟨w₂, hs₂, hst₂⟩ := hst₁.enter_site (hs.mono hw)
      exact ⟨w₂, _, .yes h' (hvv.truthy_eq ▸ hv), rfl, .statements hs₂ _, hst₂⟩
  | no h hv =>
    cases htask with
    | statement hs s =>
      obtain ⟨w₁, v', st₁', h', hw, hst₁, hvv⟩ := (hexpr _ _ _ _ _ hs hst).of_done h
      obtain ⟨w₂, hs₂, hst₂⟩ := hst₁.enter_site (hs.mono hw)
      exact ⟨w₂, _, .no h' (hvv.truthy_eq ▸ hv), rfl, .statements hs₂ _, hst₂⟩
  | loop =>
    cases htask with
    | statement hs s =>
      obtain ⟨w₁, hs₁, hst₁⟩ := hst.enter_site hs
      exact ⟨w₁, _, .loop, rfl, .loop hs₁ _ _ _, hst₁⟩
  | first =>
    cases htask with
    | statements hs ss => exact ⟨w, _, .first, rfl, .statement hs _, hst⟩
  | rest h =>
    cases htask with
    | statements hs ss =>
      obtain ⟨w₁, flow, st₁', h', hw, hst₁, hflow⟩ := (execute_meet (call_keeps opts turns n)
        (call_keeps opts' turns n) (call_meet sim turns n) _ hs hst).of_done h
      cases hflow with
      | normal _ => exact ⟨w₁, _, .rest h', rfl, .statements (hs.mono hw) _, hst₁⟩
  | test =>
    cases htask with
    | loop hs test body turns => exact ⟨w, _, .test, rfl, .expression hs _, hst⟩
  | turn h hv =>
    cases htask with
    | loop hs test body turns =>
      obtain ⟨w₁, v', st₁', h', hw, hst₁, hvv⟩ := (hexpr _ _ _ _ _ hs hst).of_done h
      exact ⟨w₁, _, .turn h' (hvv.truthy_eq ▸ hv), rfl, .statements (hs.mono hw) _, hst₁⟩
  | again h hv hbody =>
    cases htask with
    | loop hs test body turns =>
      obtain ⟨w₁, v', st₁', h', hw, hst₁, hvv⟩ := (hexpr _ _ _ _ _ hs hst).of_done h
      obtain ⟨w₂, flow, st₂', hbody', hw₂, hst₂, hflow⟩ := (executeAll_meet
        (call_keeps opts _ n) (call_keeps opts' _ n) (call_meet sim _ n) _ .null (hs.mono hw)
        hst₁).of_done hbody
      cases hflow with
      | normal _ =>
        exact ⟨w₂, _, .again h' (hvv.truthy_eq ▸ hv) hbody', rfl,
          .loop ((hs.mono hw).mono hw₂) _ _ _, hst₂⟩

/-- **Runs that correspond come to moments that do.** -/
theorem visits_meet {m m₁ m' : Moment} (h : Moment.Visits opts turns m m₁)
    (hm : sim.Moments w m m') :
    ∃ w₁ m₁', Moment.Visits opts' turns m' m₁' ∧ sim.Moments w₁ m₁ m₁' := by
  induction h with
  | refl => exact ⟨w, m', .refl, hm⟩
  | tail _ hstep ih =>
    obtain ⟨w₁, m₁', hvisits, hm₁⟩ := ih
    obtain ⟨w₂, m₂', hstep', hm₂⟩ := step_meet hstep hm₁
    exact ⟨w₂, m₂', hvisits.tail hstep', hm₂⟩

/-- **Look-ups of one run are look-ups of the other**, at the same place, in scopes and stores that
correspond. -/
theorem looksUp_meet {it it' : Interpreter} (hit : sim.Interpreters w it it') {bounds : Bounds}
    {p : Program} {site : Site} {name : String} {span : Span} {store : Store}
    (h : it.LooksUp bounds p site name span store) :
    ∃ w₁ site' store', it'.LooksUp bounds p site' name span store' ∧ sim.Sites w₁ site site' ∧
      sim.Stores w₁ store store' := by
  obtain ⟨n, st, rfl, hvisits⟩ := h
  rw [hit.options_eq] at hvisits
  have hstart : sim.Moments w (it.start bounds p) (it'.start bounds p) :=
    ⟨rfl, .statements hit.site p.statements, hit.states⟩
  obtain ⟨w₁, ⟨n', task', st'⟩, hvisits', -, htask, hst⟩ := visits_meet hvisits hstart
  cases htask with
  | expression hs e =>
    exact ⟨w₁, _, st'.store, ⟨n', st', rfl, hit.options_eq' ▸ hvisits'⟩, hs, hst.stores⟩

end Simulation

end ScopeScript
