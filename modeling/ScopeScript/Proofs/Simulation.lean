import Mathlib.Data.List.Forall2
import ScopeScript.Proofs.Footprint

/-!
# Two runs side by side

Two runs of the same code may start from different stores, and may differ in what is done when a
scope ends, and still go the same way: they evaluate the same nodes in the same order, print the
same lines, fail with the same error. This file shows once what such a comparison takes.

A `ScopeScript.Simulation` says when two scopes and two stores correspond, as a **world** of what is
known about the two runs grows. It has to answer for the operations on stores only: look-ups,
declarations, and a scope from its beginning to its end. From that, corresponding states lead to
corresponding outcomes through every expression, every statement and every call
(`ScopeScript.Simulation.evaluate_meet`, `ScopeScript.Simulation.execute_meet`,
`ScopeScript.Simulation.call_meet`).

What is known about a scope while it is open is given up when it ends: the world after it need not
extend the world inside it, only the one before.
-/

namespace ScopeScript

/-! ### Values that correspond -/

/-- **Values that correspond**: the same value, but for the scopes of closures. -/
inductive Value.Alike (R : Scope → Scope → Prop) : Value → Value → Prop where
  /-- A value that is no closure corresponds to itself. -/
  | plain {v : Value} (h : ∀ c, v ≠ .closure c) : Alike R v v
  /-- Closures of one declaration correspond if their scopes do. -/
  | closure (text : Nat) (decl : FunctionDecl) {s s' : Scope} (h : R s s') :
    Alike R (.closure ⟨text, decl, s⟩) (.closure ⟨text, decl, s'⟩)

namespace Value.Alike

variable {R R' : Scope → Scope → Prop} {a a' b b' v v' : Value}

theorem mono (hR : ∀ s s', R s s' → R' s s') (h : v.Alike R v') : v.Alike R' v' := by
  cases h with
  | plain h => exact .plain h
  | closure text decl h => exact .closure text decl (hR _ _ h)

theorem null : Value.null.Alike R .null :=
  .plain nofun

theorem render_eq (h : v.Alike R v') : v.render = v'.render := by
  cases h <;> rfl

theorem truthy_eq (h : v.Alike R v') : v.truthy = v'.truthy := by
  cases h <;> rfl

theorem decides_eq (h : v.Alike R v') (op : LogicalOp) : op.decides v = op.decides v' := by
  cases op <;> simp only [LogicalOp.decides, h.truthy_eq]

end Value.Alike

/-- What an operator gives is **never a closure**. -/
theorem BinaryOp.apply_ne_closure {op : BinaryOp} {a b v : Value} (h : op.apply a b = .ok v) :
    ∀ c, v ≠ .closure c := by
  rintro c rfl
  cases op <;> cases a <;> cases b <;> cases h

theorem UnaryOp.apply_ne_closure {op : UnaryOp} {a v : Value} (h : op.apply a = .ok v) :
    ∀ c, v ≠ .closure c := by
  rintro c rfl
  cases op <;> cases a <;> cases h

/-- Operators see of a closure **only whether it is the same as another**. -/
theorem BinaryOp.apply_alike {R : Scope → Scope → Prop} {a a' b b' : Value}
    (hR : ∀ s s' t t', R s s' → R t t' → (s.frame = t.frame ↔ s'.frame = t'.frame))
    (ha : a.Alike R a') (hb : b.Alike R b') (op : BinaryOp) : op.apply a b = op.apply a' b' := by
  cases ha with
  | plain ha =>
    cases hb with
    | plain hb => rfl
    | closure text decl h => cases op <;> cases a <;> first | rfl | exact absurd rfl (ha _)
  | closure text decl h =>
    cases hb with
    | plain hb => cases op <;> cases b <;> first | rfl | exact absurd rfl (hb _)
    | closure text' decl' h' =>
      -- of their scopes only the innermost frames are compared
      have hsame : ∀ s s' : Scope, (⟨text, decl, s⟩ : Closure).same ⟨text', decl', s'⟩ =
          (decide (text = text') && decide (decl.name = decl'.name) &&
            decide (decl.body.span = decl'.body.span) && decide (s.frame = s'.frame)) :=
        fun _ _ => rfl
      cases op <;> first
        | rfl
        | simp only [BinaryOp.apply, Value.equal, hsame, hR _ _ _ _ h h']

theorem UnaryOp.apply_alike {R : Scope → Scope → Prop} {a a' : Value} (ha : a.Alike R a')
    (op : UnaryOp) : op.apply a = op.apply a' := by
  cases ha with
  | plain ha => rfl
  | closure text decl h => cases op <;> rfl

/-! ### Simulations -/

/-- The store once a scope has been left, as the options have it. -/
def Store.leave (opts : Options) (st : Store) (s : Scope) (survivor : Option Value) : Store :=
  if opts.reclaim then st.endScope s survivor else st

theorem State.leave_eq (opts : Options) (st : State) (s : Scope) (survivor : Option Value) :
    st.leave opts s survivor = { st with store := st.store.leave opts s survivor } := by
  rw [State.leave, Store.leave]
  split <;> rfl

/-- **When two runs correspond.** A world is what is known of the two runs at one moment; as it
extends, more scopes correspond and those that did still do. -/
structure Simulation (opts opts' : Options) where
  /-- What is known of the two runs. -/
  World : Type
  /-- More is known. -/
  Extends : World → World → Prop
  /-- Scopes that correspond. -/
  Scopes : World → Scope → Scope → Prop
  /-- Stores that correspond. -/
  Stores : World → Store → Store → Prop
  /-- Lines printed that correspond. -/
  Outputs : Array String → Array String → Prop
  /-- Both runs count arguments alike. -/
  strictArity_eq : opts.strictArity = opts'.strictArity
  /-- Both runs have the same limit of calls. -/
  maxCallDepth_eq : opts.maxCallDepth = opts'.maxCallDepth
  /-- A world extends itself. -/
  refl (w : World) : Extends w w
  /-- Extending is transitive. -/
  trans {w₁ w₂ w₃ : World} : Extends w₁ w₂ → Extends w₂ w₃ → Extends w₁ w₃
  /-- Scopes that correspond go on doing so. -/
  scopes_mono {w w' : World} {s s' : Scope} : Extends w w' → Scopes w s s' → Scopes w' s s'
  /-- One frame corresponds to one frame. -/
  frame_iff {w : World} {s s' t t' : Scope} :
    Scopes w s s' → Scopes w t t' → (s.frame = t.frame ↔ s'.frame = t'.frame)
  /-- **Look-ups** find values that correspond, or nothing. -/
  lookup {w : World} {s s' : Scope} {st st' : Store} : Scopes w s s' → Stores w st st' →
    ∀ name, Option.Rel (Value.Alike (Scopes w)) (st.get? s name) (st'.get? s' name)
  /-- **Declarations** of values that correspond. -/
  define {w : World} {s s' : Scope} {st st' : Store} {v v' : Value} : Scopes w s s' →
    Stores w st st' → v.Alike (Scopes w) v' →
    ∀ name, Stores w (st.define s name v) (st'.define s' name v')
  /-- **Lines** are printed alike. -/
  print {lines lines' : Array String} : Outputs lines lines' →
    ∀ line, Outputs (lines.push line) (lines'.push line)
  /-- **A scope from its beginning to its end.** What runs in it keeps the frames that there were;
  when it has ended, the world extends the one before it. -/
  scope {w : World} {s s' : Scope} {st st' : Store} : Scopes w s s' → Stores w st st' →
    ∃ w₁, Extends w w₁ ∧ Stores w₁ (st.enclose s).2 (st'.enclose s').2 ∧
      Scopes w₁ (st.enclose s).1 (st'.enclose s').1 ∧
      ∀ w₂ st₂ st₂' survivor survivor', Extends w₁ w₂ → Stores w₂ st₂ st₂' →
        (∀ id < st.frames.size, st₂.frame id = st.frame id) →
        (∀ id < st'.frames.size, st₂'.frame id = st'.frame id) →
        Option.Rel (Value.Alike (Scopes w₂)) survivor survivor' →
        ∃ w₃, Extends w w₃ ∧
          Stores w₃ (st₂.leave opts (st.enclose s).1 survivor)
            (st₂'.leave opts' (st'.enclose s').1 survivor') ∧
          Option.Rel (Value.Alike (Scopes w₃)) survivor survivor'

/-- Ends of statements that correspond. -/
inductive Flow.Alike (R : Scope → Scope → Prop) : Flow → Flow → Prop where
  /-- The next statement follows in both runs. -/
  | normal {v v' : Value} (h : v.Alike R v') : Alike R (.normal v) (.normal v')
  /-- The call is left in both runs. -/
  | exit {v v' : Value} (h : v.Alike R v') : Alike R (.exit v) (.exit v')

theorem Flow.Alike.value {R : Scope → Scope → Prop} {flow flow' : Flow} (h : flow.Alike R flow') :
    flow.value.Alike R flow'.value := by
  cases h with
  | normal h => exact h
  | exit h => exact h

/-- A flow with another value. -/
theorem Flow.Alike.of_value {R R' : Scope → Scope → Prop} {flow flow' : Flow}
    (h : flow.Alike R flow') (hv : flow.value.Alike R' flow'.value) : flow.Alike R' flow' := by
  cases h with
  | normal _ => exact .normal hv
  | exit _ => exact .exit hv

namespace Simulation

variable {opts opts' : Options} (sim : Simulation opts opts') {α β : Type}

/-- Values that correspond in a world. -/
abbrev Values (w : sim.World) : Value → Value → Prop :=
  Value.Alike (sim.Scopes w)

/-- **States that correspond**: their stores and the lines printed do, and as many calls are in
progress. -/
structure States (w : sim.World) (st st' : State) : Prop where
  /-- The stores correspond. -/
  stores : sim.Stores w st.store st'.store
  /-- The lines printed correspond. -/
  outputs : sim.Outputs st.output st'.output
  /-- As many calls are in progress. -/
  depth_eq : st.depth = st'.depth

/-- **Places that correspond**: in the same text, and in scopes that do. -/
structure Sites (w : sim.World) (site site' : Site) : Prop where
  /-- The text is the same. -/
  text_eq : site.text = site'.text
  /-- The scopes correspond. -/
  scopes : sim.Scopes w site.scope site'.scope

/-- **Outcomes that correspond**, after steps from states that did in a world `w`: they are of one
kind, errors are the same, and results and states correspond in a world that extends `w`. -/
inductive Meet (w : sim.World) (R : sim.World → α → α → Prop) : Outcome α → Outcome α → Prop where
  /-- Both runs have a result. -/
  | done {w' : sim.World} {a a' : α} {st st' : State} (h : sim.Extends w w')
    (hst : sim.States w' st st') (ha : R w' a a') : Meet w R (.done a st) (.done a' st')
  /-- Both runs fail. -/
  | failed {w' : sim.World} {e : RuntimeError} {st st' : State} (h : sim.Extends w w')
    (hst : sim.States w' st st') : Meet w R (.failed e st) (.failed e st')
  /-- Both runs come to a bound. -/
  | unfinished : Meet w R .unfinished .unfinished

variable {sim} {w w' : sim.World} {R : sim.World → α → α → Prop} {Q : sim.World → β → β → Prop}

theorem Values.mono {v v' : Value} (h : sim.Extends w w') (hv : sim.Values w v v') :
    sim.Values w' v v' :=
  Value.Alike.mono (fun _ _ => sim.scopes_mono h) hv

theorem Sites.mono {site site' : Site} (h : sim.Extends w w') (hs : sim.Sites w site site') :
    sim.Sites w' site site' :=
  ⟨hs.text_eq, sim.scopes_mono h hs.scopes⟩

theorem Meet.of_extends {o o' : Outcome α} (h : sim.Extends w w') (ho : sim.Meet w' R o o') :
    sim.Meet w R o o' := by
  cases ho with
  | done h₁ hst ha => exact .done (sim.trans h h₁) hst ha
  | failed h₁ hst => exact .failed (sim.trans h h₁) hst
  | unfinished => exact .unfinished

/-- A result at once. -/
theorem Meet.result {a a' : α} {st st' : State} (hst : sim.States w st st') (ha : R w a a') :
    sim.Meet w R (.done a st) (.done a' st') :=
  .done (sim.refl w) hst ha

/-- An error at once. -/
theorem Meet.error {e : RuntimeError} {st st' : State} (hst : sim.States w st st') :
    sim.Meet w R (.failed e st) (.failed e st') :=
  .failed (sim.refl w) hst

/-- **One step after another**, in both runs. -/
theorem Meet.andThen {o o' : Outcome α} {f f' : α → State → Outcome β} (h : sim.Meet w R o o')
    (hf : ∀ w₁ a a' st st', sim.Extends w w₁ → sim.States w₁ st st' → R w₁ a a' →
      sim.Meet w₁ Q (f a st) (f' a' st')) :
    sim.Meet w Q (o.andThen f) (o'.andThen f') := by
  cases h with
  | done h₁ hst ha => exact (hf _ _ _ _ _ h₁ hst ha).of_extends h₁
  | failed h₁ hst => exact .failed h₁ hst
  | unfinished => exact .unfinished

theorem States.define {st st' : State} {s s' : Scope} {v v' : Value} (h : sim.States w st st')
    (hs : sim.Scopes w s s') (hv : sim.Values w v v') (name : String) :
    sim.States w (st.define s name v) (st'.define s' name v') :=
  ⟨sim.define hs h.stores hv name, h.outputs, h.depth_eq⟩

theorem States.print {st st' : State} (h : sim.States w st st') (line : String) :
    sim.States w (st.print line) (st'.print line) :=
  ⟨h.stores, sim.print h.outputs line, h.depth_eq⟩

/-! ### Expressions -/

/-- **Calls are answered alike** from states that correspond. -/
def Callers (sim : Simulation opts opts') (call call' : Caller) : Prop :=
  ∀ w v v' args args' span st st', sim.Values w v v' → List.Forall₂ (sim.Values w) args args' →
    sim.States w st st' → sim.Meet w sim.Values (call v args span st) (call' v' args' span st')

section Expressions

variable {call call' : Caller} {site site' : Site} {st st' : State}

theorem lookup_meet (hs : sim.Scopes w site.scope site'.scope) (hst : sim.States w st st')
    (name : String) (span : Span) :
    sim.Meet w sim.Values (Eval.lookup site.scope name span st)
      (Eval.lookup site'.scope name span st') := by
  have h := sim.lookup hs hst.stores name
  rw [Eval.lookup, Eval.lookup]
  generalize st.store.get? site.scope name = r at h
  generalize st'.store.get? site'.scope name = r' at h
  cases h with
  | none => exact .error hst
  | some h => exact .result hst h

theorem ofOperator_meet {r r' : Except TypeFault Value} (hst : sim.States w st st') (hr : r = r')
    (hplain : ∀ v, r = .ok v → ∀ c, v ≠ .closure c) (span : Span) :
    sim.Meet w sim.Values (Eval.ofOperator span r st) (Eval.ofOperator span r' st') := by
  subst hr
  cases r with
  | ok v => exact .result hst (.plain (hplain v rfl))
  | error fault => exact .error hst

mutual

/-- **An expression has corresponding outcomes** in corresponding states. -/
theorem evaluate_meet (hcall : sim.Callers call call') :
    ∀ (e : Expr) {w : sim.World} {st st' : State}, sim.Sites w site site' → sim.States w st st' →
      sim.Meet w sim.Values (evaluate call site e st) (evaluate call' site' e st')
  | .literal v span, w, st, st', _, hst => by
    rw [evaluate_literal, evaluate_literal]
    exact .result hst (.plain fun c => by cases v <;> nofun)
  | .name id span, w, st, st', hs, hst => by
    rw [evaluate_name, evaluate_name]
    exact lookup_meet hs.scopes hst id span
  | .binary op l r span, w, st, st', hs, hst => by
    rw [evaluate_binary, evaluate_binary]
    refine (evaluate_meet hcall l hs hst).andThen ?_
    intro w₁ a a' st₁ st₁' h₁ hst₁ ha
    refine (evaluate_meet hcall r (hs.mono h₁) hst₁).andThen ?_
    intro w₂ b b' st₂ st₂' h₂ hst₂ hb
    have happly : op.apply a b = op.apply a' b' :=
      BinaryOp.apply_alike (fun _ _ _ _ => sim.frame_iff) (ha.mono h₂) hb op
    exact ofOperator_meet hst₂ happly (fun v => BinaryOp.apply_ne_closure) span
  | .logical op l r span, w, st, st', hs, hst => by
    rw [evaluate_logical, evaluate_logical]
    refine (evaluate_meet hcall l hs hst).andThen ?_
    intro w₁ a a' st₁ st₁' h₁ hst₁ ha
    rw [ha.decides_eq op]
    split
    · exact .result hst₁ ha
    · exact evaluate_meet hcall r (hs.mono h₁) hst₁
  | .unary op e span, w, st, st', hs, hst => by
    rw [evaluate_unary, evaluate_unary]
    refine (evaluate_meet hcall e hs hst).andThen ?_
    intro w₁ a a' st₁ st₁' h₁ hst₁ ha
    exact ofOperator_meet hst₁ (UnaryOp.apply_alike ha op) (fun v => UnaryOp.apply_ne_closure) span
  | .call f args span, w, st, st', hs, hst => by
    rw [evaluate_call, evaluate_call]
    refine (evaluate_meet hcall f hs hst).andThen ?_
    intro w₁ v v' st₁ st₁' h₁ hst₁ hv
    refine (evaluateAll_meet hcall args (hs.mono h₁) hst₁).andThen ?_
    intro w₂ vs vs' st₂ st₂' h₂ hst₂ hvs
    exact hcall w₂ v v' vs vs' span st₂ st₂' (hv.mono h₂) hvs hst₂

theorem evaluateAll_meet (hcall : sim.Callers call call') :
    ∀ (es : List Expr) {w : sim.World} {st st' : State}, sim.Sites w site site' →
      sim.States w st st' →
      sim.Meet w (fun w => List.Forall₂ (sim.Values w)) (evaluateAll call site es st)
        (evaluateAll call' site' es st')
  | [], w, st, st', _, hst => by
    rw [evaluateAll_nil, evaluateAll_nil]
    exact .result hst .nil
  | e :: es, w, st, st', hs, hst => by
    rw [evaluateAll_cons, evaluateAll_cons]
    refine (evaluate_meet hcall e hs hst).andThen ?_
    intro w₁ v v' st₁ st₁' h₁ hst₁ hv
    refine (evaluateAll_meet hcall es (hs.mono h₁) hst₁).andThen ?_
    intro w₂ vs vs' st₂ st₂' h₂ hst₂ hvs
    exact .result hst₂ (.cons (hv.mono h₂) hvs)

end

end Expressions

/-! ### Scopes and loops -/

section Scopes

variable {s s' : Scope} {st st' : State}

/-- **A scope from its beginning to its end**, as the states have it: whatever keeps the frames that
there were may happen in between. -/
theorem States.enter (hs : sim.Scopes w s s') (hst : sim.States w st st') :
    ∃ w₁, sim.Extends w w₁ ∧ sim.States w₁ (st.enter s) (st'.enter s') ∧
      sim.Scopes w₁ (st.store.enclose s).1 (st'.store.enclose s').1 ∧
      ∀ w₂ st₂ st₂' survivor survivor', sim.Extends w₁ w₂ → sim.States w₂ st₂ st₂' →
        (st.enter s).Kept (some st.store.frames.size) st₂ →
        (st'.enter s').Kept (some st'.store.frames.size) st₂' →
        Option.Rel (sim.Values w₂) survivor survivor' →
        ∃ w₃, sim.Extends w w₃ ∧
          sim.States w₃ (st₂.leave opts (st.store.enclose s).1 survivor)
            (st₂'.leave opts' (st'.store.enclose s').1 survivor') ∧
          Option.Rel (sim.Values w₃) survivor survivor' := by
  obtain ⟨w₁, hw, hst₁, hs₁, hclose⟩ := sim.scope hs hst.stores
  refine ⟨w₁, hw, ⟨hst₁, hst.outputs, hst.depth_eq⟩, hs₁, ?_⟩
  intro w₂ st₂ st₂' survivor survivor' hw₂ hst₂ hkept hkept' hsurvivor
  -- the frames made before the scope are not written in until it ends
  have hframe : ∀ id < st.store.frames.size, st₂.store.frame id = st.store.frame id :=
    fun id hid => hkept.of_enter.frame_eq id hid (Option.some_ne_none id).symm
  have hframe' : ∀ id < st'.store.frames.size, st₂'.store.frame id = st'.store.frame id :=
    fun id hid => hkept'.of_enter.frame_eq id hid (Option.some_ne_none id).symm
  obtain ⟨w₃, hw₃, hst₃, hsurvivor₃⟩ := hclose w₂ st₂.store st₂'.store survivor survivor' hw₂
    hst₂.stores hframe hframe' hsurvivor
  refine ⟨w₃, hw₃, ?_, hsurvivor₃⟩
  rw [State.leave_eq, State.leave_eq]
  exact ⟨hst₃, hst₂.outputs, hst₂.depth_eq⟩

/-- Flows that correspond in a world. -/
abbrev Flows (sim : Simulation opts opts') (w : sim.World) : Flow → Flow → Prop :=
  Flow.Alike (sim.Scopes w)

/-- **A new scope** for corresponding bodies that write in their own scope only. -/
theorem enclosed_meet {site site' : Site} {body body' : Site → Eval Flow}
    (hkeep : ∀ inner st, (body inner st).Leads (st.Kept (some inner.scope.frame)))
    (hkeep' : ∀ inner st, (body' inner st).Leads (st.Kept (some inner.scope.frame)))
    (hbody : ∀ w inner inner' st st', sim.Sites w inner inner' → sim.States w st st' →
      sim.Meet w sim.Flows (body inner st) (body' inner' st'))
    (hs : sim.Sites w site site') (hst : sim.States w st st') :
    sim.Meet w sim.Flows (Eval.enclosed opts site body st)
      (Eval.enclosed opts' site' body' st') := by
  -- what is known inside the scope serves to end it, and only what was known before is left then
  obtain ⟨w₁, hw, hst₁, hs₁, hclose⟩ := hst.enter hs.scopes
  have hk := hkeep ⟨site.text, (st.store.enclose site.scope).1⟩ (st.enter site.scope)
  have hk' := hkeep' ⟨site'.text, (st'.store.enclose site'.scope).1⟩ (st'.enter site'.scope)
  have hmeet := hbody w₁ ⟨site.text, (st.store.enclose site.scope).1⟩
    ⟨site'.text, (st'.store.enclose site'.scope).1⟩ _ _ ⟨hs.text_eq, hs₁⟩ hst₁
  rw [enclosed_apply, enclosed_apply, Eval.ending, Eval.ending]
  generalize body _ (st.enter site.scope) = o at hmeet hk
  generalize body' _ (st'.enter site'.scope) = o' at hmeet hk'
  cases hmeet with
  | done hw₂ hst₂ hflow =>
    obtain ⟨w₃, hw₃, hst₃, hvalue⟩ := hclose _ _ _ _ _ hw₂ hst₂ hk hk' (.some hflow.value)
    cases hvalue with
    | some hvalue => exact .done hw₃ hst₃ (hflow.of_value hvalue)
  | failed hw₂ hst₂ =>
    obtain ⟨w₃, hw₃, hst₃, -⟩ := hclose _ _ _ _ _ hw₂ hst₂ hk hk' .none
    exact .failed hw₃ hst₃
  | unfinished => exact .unfinished

/-- A loop, **turn by turn**. -/
theorem repeatWhile_meet {site site' : Site} {test test' : Eval Value} {body body' : Eval Flow}
    (htest : ∀ w st st', sim.Sites w site site' → sim.States w st st' →
      sim.Meet w sim.Values (test st) (test' st'))
    (hbody : ∀ w st st', sim.Sites w site site' → sim.States w st st' →
      sim.Meet w sim.Flows (body st) (body' st')) :
    ∀ (turns : Nat) {w : sim.World} {st st' : State}, sim.Sites w site site' →
      sim.States w st st' →
      sim.Meet w sim.Flows (Eval.repeatWhile test body turns st)
        (Eval.repeatWhile test' body' turns st')
  | 0, _, _, _, _, _ => .unfinished
  | n + 1, w, st, st', hs, hst => by
    rw [repeatWhile_succ, repeatWhile_succ]
    refine (htest w st st' hs hst).andThen ?_
    intro w₁ v v' st₁ st₁' h₁ hst₁ hv
    rw [hv.truthy_eq]
    split
    · refine (hbody w₁ st₁ st₁' (hs.mono h₁) hst₁).andThen ?_
      intro w₂ flow flow' st₂ st₂' h₂ hst₂ hflow
      cases hflow with
      | normal _ => exact repeatWhile_meet htest hbody n ((hs.mono h₁).mono h₂) hst₂
      | exit hv => exact .result hst₂ (.exit hv)
    · exact .result hst₁ (.normal .null)

end Scopes

/-! ### Statements -/

section Statements

variable {call call' : Caller} {turns : Nat}

mutual

/-- **A statement has corresponding outcomes** in corresponding states. -/
theorem execute_meet (hkeep : call.Keeps) (hkeep' : call'.Keeps) (hcall : sim.Callers call call') :
    ∀ (s : Stmt) {w : sim.World} {site site' : Site} {st st' : State}, sim.Sites w site site' →
      sim.States w st st' →
      sim.Meet w sim.Flows (execute opts call turns site s st)
        (execute opts' call' turns site' s st')
  | .declare name none span, w, site, site', st, st', hs, hst => by
    rw [execute_declare_none, execute_declare_none]
    exact .result (hst.define hs.scopes .null name) (.normal .null)
  | .declare name (some e) span, w, site, site', st, st', hs, hst => by
    rw [execute_declare_some, execute_declare_some]
    refine (evaluate_meet hcall e hs hst).andThen ?_
    intro w₁ v v' st₁ st₁' h₁ hst₁ hv
    exact .result (hst₁.define (hs.mono h₁).scopes hv name) (.normal hv)
  | .print e span, w, site, site', st, st', hs, hst => by
    rw [execute_print, execute_print]
    refine (evaluate_meet hcall e hs hst).andThen ?_
    intro w₁ v v' st₁ st₁' h₁ hst₁ hv
    rw [hv.render_eq]
    exact .result (hst₁.print _) (.normal .null)
  | .block b, w, site, site', st, st', hs, hst => by
    rw [execute_block, execute_block]
    exact executeBlock_meet hkeep hkeep' hcall b hs hst
  | .conditional test b c span, w, site, site', st, st', hs, hst => by
    rw [execute_conditional, execute_conditional]
    refine (evaluate_meet hcall test hs hst).andThen ?_
    intro w₁ v v' st₁ st₁' h₁ hst₁ hv
    rw [hv.truthy_eq]
    split
    · exact executeBlock_meet hkeep hkeep' hcall b (hs.mono h₁) hst₁
    · cases c with
      | none => exact .result hst₁ (.normal .null)
      | some c => exact executeBlock_meet hkeep hkeep' hcall c (hs.mono h₁) hst₁
  | .loop test (.mk body inner) span, w, site, site', st, st', hs, hst => by
    rw [execute_loop, execute_loop]
    -- all turns, and the tests between them, run in one scope
    refine enclosed_meet ?_ ?_ ?_ hs hst
    · exact fun inner => repeatWhile_kept (evaluate_kept hkeep test)
        (executeAll_kept hkeep body _ inner) turns
    · exact fun inner => repeatWhile_kept (evaluate_kept hkeep' test)
        (executeAll_kept hkeep' body _ inner) turns
    · intro w₁ i i' st₁ st₁' hi hst₁
      refine repeatWhile_meet ?_ ?_ turns hi hst₁
      · exact fun w₂ st₂ st₂' => evaluate_meet hcall test
      · exact fun w₂ st₂ st₂' hi hst₂ => executeAll_meet hkeep hkeep' hcall body .null hi hst₂
  | .function name params body span, w, site, site', st, st', hs, hst => by
    rw [execute_function, execute_function]
    have hv : sim.Values w (.closure ⟨site.text, ⟨name, params, body⟩, site.scope⟩)
        (.closure ⟨site'.text, ⟨name, params, body⟩, site'.scope⟩) := by
      rw [hs.text_eq]
      exact .closure _ _ hs.scopes
    exact .result (hst.define hs.scopes hv name) (.normal hv)
  | .exit e span, w, site, site', st, st', hs, hst => by
    rw [execute_exit, execute_exit]
    refine (evaluate_meet hcall e hs hst).andThen ?_
    intro w₁ v v' st₁ st₁' h₁ hst₁ hv
    exact .result hst₁ (.exit hv)
  | .expression e, w, site, site', st, st', hs, hst => by
    rw [execute_expression, execute_expression]
    refine (evaluate_meet hcall e hs hst).andThen ?_
    intro w₁ v v' st₁ st₁' h₁ hst₁ hv
    exact .result hst₁ (.normal hv)

theorem executeBlock_meet (hkeep : call.Keeps) (hkeep' : call'.Keeps)
    (hcall : sim.Callers call call') :
    ∀ (b : Block) {w : sim.World} {site site' : Site} {st st' : State}, sim.Sites w site site' →
      sim.States w st st' →
      sim.Meet w sim.Flows (executeBlock opts call turns site b st)
        (executeBlock opts' call' turns site' b st')
  | .mk ss span, w, site, site', st, st', hs, hst => by
    rw [executeBlock_mk, executeBlock_mk]
    refine enclosed_meet ?_ ?_ ?_ hs hst
    · exact fun inner => executeAll_kept hkeep ss _ inner
    · exact fun inner => executeAll_kept hkeep' ss _ inner
    · intro w₁ i i' st₁ st₁' hi hst₁
      exact executeAll_meet hkeep hkeep' hcall ss .null hi hst₁

theorem executeAll_meet (hkeep : call.Keeps) (hkeep' : call'.Keeps)
    (hcall : sim.Callers call call') :
    ∀ (ss : List Stmt) {w : sim.World} {site site' : Site} {last last' : Value} {st st' : State},
      sim.Values w last last' → sim.Sites w site site' → sim.States w st st' →
      sim.Meet w sim.Flows (executeAll opts call turns site last ss st)
        (executeAll opts' call' turns site' last' ss st')
  | [], w, site, site', last, last', st, st', hlast, _, hst => by
    rw [executeAll_nil, executeAll_nil]
    exact .result hst (.normal hlast)
  | s :: ss, w, site, site', last, last', st, st', _, hs, hst => by
    rw [executeAll_cons, executeAll_cons]
    refine (execute_meet hkeep hkeep' hcall s hs hst).andThen ?_
    intro w₁ flow flow' st₁ st₁' h₁ hst₁ hflow
    cases hflow with
    | normal hv => exact executeAll_meet hkeep hkeep' hcall ss hv (hs.mono h₁) hst₁
    | exit hv => exact .result hst₁ (.exit hv)

end

end Statements

/-! ### Calls -/

section Calls

variable {s s' : Scope} {st st' : State} {runBody runBody' : Site → List Stmt → Eval Flow}

/-- Parameters are bound **to arguments that correspond**. -/
theorem bindAll_stores {st st' : Store} (hs : sim.Scopes w s s') (hst : sim.Stores w st st')
    (params : List String) {args args' : List Value}
    (hargs : List.Forall₂ (sim.Values w) args args') :
    sim.Stores w (st.bindAll s params args) (st'.bindAll s' params args') := by
  induction params generalizing args args' st st' with
  | nil => exact hst
  | cons p ps ih =>
    cases hargs with
    | nil => exact ih (sim.define hs hst .null p) .nil
    | cons hv hargs => exact ih (sim.define hs hst hv p) hargs

/-- The states in which the body of a closure starts. -/
theorem States.activate (hst₁ : sim.States w (st.enter s) (st'.enter s'))
    (hs₁ : sim.Scopes w (st.store.enclose s).1 (st'.store.enclose s').1) (text : Nat)
    (decl : FunctionDecl) {args args' : List Value}
    (hargs : List.Forall₂ (sim.Values w) args args') :
    sim.States w (st.activate ⟨text, decl, s⟩ args) (st'.activate ⟨text, decl, s'⟩ args') :=
  ⟨bindAll_stores hs₁ hst₁.stores decl.params hargs, hst₁.outputs,
    congrArg (· + 1) hst₁.depth_eq⟩

/-- **Bodies are run alike** from states that correspond. -/
def Bodies (sim : Simulation opts opts') (runBody runBody' : Site → List Stmt → Eval Flow) : Prop :=
  ∀ w site site' ss st st', sim.Sites w site site' → sim.States w st st' →
    sim.Meet w sim.Flows (runBody site ss st) (runBody' site' ss st')

theorem activation_meet (hkeep : KeepBodies runBody) (hkeep' : KeepBodies runBody')
    (hbody : sim.Bodies runBody runBody') (text : Nat) (decl : FunctionDecl)
    (hs : sim.Scopes w s s') {args args' : List Value}
    (hargs : List.Forall₂ (sim.Values w) args args') (hst : sim.States w st st') :
    sim.Meet w sim.Values (Eval.activation opts runBody ⟨text, decl, s⟩ args st)
      (Eval.activation opts' runBody' ⟨text, decl, s'⟩ args' st') := by
  obtain ⟨w₁, hw, hst₁, hs₁, hclose⟩ := hst.enter hs
  have hstart : sim.States w₁ (st.activate ⟨text, decl, s⟩ args)
      (st'.activate ⟨text, decl, s'⟩ args') :=
    .activate hst₁ hs₁ text decl (hargs.imp fun _ _ h => h.mono hw)
  have hk := hkeep ⟨text, (st.store.enclose s).1⟩ decl.body.statements
    (st.activate ⟨text, decl, s⟩ args)
  have hk' := hkeep' ⟨text, (st'.store.enclose s').1⟩ decl.body.statements
    (st'.activate ⟨text, decl, s'⟩ args')
  have hmeet := hbody w₁ ⟨text, (st.store.enclose s).1⟩ ⟨text, (st'.store.enclose s').1⟩
    decl.body.statements _ _ ⟨rfl, hs₁⟩ hstart
  rw [activation_apply, activation_apply]
  generalize runBody _ _ (st.activate ⟨text, decl, s⟩ args) = o at hmeet hk
  generalize runBody' _ _ (st'.activate ⟨text, decl, s'⟩ args') = o' at hmeet hk'
  -- the call is no longer counted when its scope ends
  have hback : ∀ {w st st'}, sim.States w st st' → sim.States w st.comeBack st'.comeBack :=
    fun h => ⟨h.stores, h.outputs, congrArg (· - 1) h.depth_eq⟩
  cases hmeet with
  | done hw₂ hst₂ hflow =>
    obtain ⟨w₃, hw₃, hst₃, hvalue⟩ := hclose _ _ _ _ _ hw₂ (hback hst₂) hk.of_activate
      hk'.of_activate (.some hflow.value)
    cases hvalue with
    | some hvalue => exact .done hw₃ hst₃ hvalue
  | failed hw₂ hst₂ =>
    obtain ⟨w₃, hw₃, hst₃, -⟩ := hclose _ _ _ _ _ hw₂ (hback hst₂) hk.of_activate
      hk'.of_activate .none
    exact .failed hw₃ hst₃
  | unfinished => exact .unfinished

/-- **Calls are answered alike** if bodies are run alike. -/
theorem answer_meet (hkeep : KeepBodies runBody) (hkeep' : KeepBodies runBody')
    (hbody : sim.Bodies runBody runBody') :
    sim.Callers (answer opts runBody) (answer opts' runBody') := by
  intro w v v' args args' span st st' hv hargs hst
  cases hv with
  | closure text decl hs =>
    -- whether the call is refused depends on what is the same in both runs
    have hrefusal : opts.refusal? decl args span st.depth =
        opts'.refusal? decl args' span st'.depth := by
      rw [Options.refusal?, Options.refusal?, sim.strictArity_eq, hargs.length_eq,
        sim.maxCallDepth_eq, hst.depth_eq]
    simp only [answer_closure, hrefusal]
    split
    · exact .error hst
    · exact activation_meet hkeep hkeep' hbody text decl hs hargs hst
  | plain hplain =>
    cases v with
    | closure c => exact absurd rfl (hplain c)
    | builtin =>
      have hshown : args.map Value.render = args'.map Value.render :=
        List.forall₂_eq_eq_eq ▸ List.forall₂_map_left_iff.mpr
          (List.forall₂_map_right_iff.mpr (hargs.imp fun _ _ h => h.render_eq))
      rw [answer_builtin, answer_builtin, hshown]
      exact .result (hst.print _) .null
    | _ => exact .error hst

/-- Bodies are run alike **however deeply calls may nest**. -/
theorem bodies_meet (sim : Simulation opts opts') (turns : Nat) :
    ∀ n, sim.Bodies (bodies opts turns n) (bodies opts' turns n)
  | 0 => fun _ _ _ _ _ _ _ _ => .unfinished
  | n + 1 => fun w site site' ss st st' hs hst => by
    refine executeAll_meet (call_keeps opts turns n) (call_keeps opts' turns n) ?_ ss .null hs hst
    rw [call_eq_answer, call_eq_answer]
    exact answer_meet (bodies_keep opts turns n) (bodies_keep opts' turns n)
      (bodies_meet sim turns n)

/-- **A call has corresponding outcomes** in corresponding states. -/
theorem call_meet (sim : Simulation opts opts') (turns n : Nat) :
    sim.Callers (call opts turns n) (call opts' turns n) := by
  rw [call_eq_answer, call_eq_answer]
  exact answer_meet (bodies_keep opts turns n) (bodies_keep opts' turns n) (bodies_meet sim turns n)

end Calls

/-! ### Interpreters -/

/-- **Interpreters that correspond**, with the options of the two runs. -/
structure Interpreters (w : sim.World) (it it' : Interpreter) : Prop where
  /-- The options of the first run. -/
  options_eq : it.options = opts
  /-- The options of the second run. -/
  options_eq' : it'.options = opts'
  /-- As many texts have been read. -/
  texts_eq : it.texts = it'.texts
  /-- The global scopes correspond. -/
  globals : sim.Scopes w it.globals it'.globals
  /-- The states correspond. -/
  states : sim.States w it.state it'.state

/-- **Results that correspond**: the same error, or values that do. -/
inductive Results (w : sim.World) : Except RuntimeError Value → Except RuntimeError Value → Prop
  /-- Both runs give a value. -/
  | ok {v v' : Value} (h : sim.Values w v v') : Results w (.ok v) (.ok v')
  /-- Both runs fail. -/
  | error (e : RuntimeError) : Results w (.error e) (.error e)

/-- Interpreters with a result each, which correspond in a world that extends the given one. -/
def Ran (w : sim.World) (r r' : Except RuntimeError Value × Interpreter) : Prop :=
  ∃ w', sim.Extends w w' ∧ sim.Results w' r.1 r'.1 ∧ sim.Interpreters w' r.2 r'.2

variable {it it' : Interpreter}

/-- The place of the next text. -/
theorem Interpreters.site (h : sim.Interpreters w it it') :
    sim.Sites w it.nextText.1 it'.nextText.1 :=
  ⟨h.texts_eq, h.globals⟩

/-- **A program runs alike** on interpreters that correspond. -/
theorem run_meet (h : sim.Interpreters w it it') (bounds : Bounds) (p : Program) :
    Option.Rel (sim.Ran w) (it.run bounds p) (it'.run bounds p) := by
  have hnext : ∀ {w₁ st st'}, sim.Extends w w₁ → sim.States w₁ st st' →
      sim.Interpreters w₁ { it.nextText.2 with state := st } { it'.nextText.2 with state := st' } :=
    fun h₁ hst => ⟨h.options_eq, h.options_eq', congrArg (· + 1) h.texts_eq,
      sim.scopes_mono h₁ h.globals, hst⟩
  have hmeet : sim.Meet w sim.Flows (it.executeAll bounds it.nextText.1 p.statements it.state)
      (it'.executeAll bounds it'.nextText.1 p.statements it'.state) := by
    rw [Interpreter.executeAll, Interpreter.executeAll, Interpreter.call, Interpreter.call,
      h.options_eq, h.options_eq']
    exact executeAll_meet (call_keeps _ _ _) (call_keeps _ _ _) (call_meet sim _ _) p.statements
      .null h.site h.states
  rw [Interpreter.run_apply, Interpreter.run_apply]
  generalize it.executeAll bounds it.nextText.1 p.statements it.state = o at hmeet
  generalize it'.executeAll bounds it'.nextText.1 p.statements it'.state = o' at hmeet
  cases hmeet with
  | done h₁ hst hflow => exact .some ⟨_, h₁, .ok hflow.value, hnext h₁ hst⟩
  | failed h₁ hst => exact .some ⟨_, h₁, .error _, hnext h₁ hst⟩
  | unfinished => exact .none

theorem Results.mono {r r' : Except RuntimeError Value} (h : sim.Extends w w')
    (hr : sim.Results w r r') : sim.Results w' r r' := by
  cases hr with
  | ok hv => exact .ok (hv.mono h)
  | error e => exact .error e

/-- **Programs run alike one after another** on interpreters that correspond. -/
theorem runAll_meet (runs : List (Bounds × Program)) {w : sim.World} {it it' : Interpreter}
    (h : sim.Interpreters w it it') :
    Option.Rel (fun r r' => ∃ w', sim.Extends w w' ∧ List.Forall₂ (sim.Results w') r.1 r'.1 ∧
      sim.Interpreters w' r.2 r'.2) (it.runAll runs) (it'.runAll runs) := by
  induction runs generalizing w it it' with
  | nil => exact .some ⟨w, sim.refl w, .nil, h⟩
  | cons run rest ih =>
    have hrun := run_meet h run.1 run.2
    rw [Interpreter.runAll, Interpreter.runAll]
    generalize it.run run.1 run.2 = o at hrun
    generalize it'.run run.1 run.2 = o' at hrun
    cases hrun with
    | none => exact .none
    | @some r r' hran =>
      obtain ⟨w₁, h₁, hr, hit⟩ := hran
      have hrest := ih hit
      simp only
      generalize r.2.runAll rest = o at hrest
      generalize r'.2.runAll rest = o' at hrest
      cases hrest with
      | none => exact .none
      | some hran =>
        obtain ⟨w₂, h₂, hrs, hit⟩ := hran
        exact .some ⟨w₂, sim.trans h₁ h₂, .cons (hr.mono h₂) hrs, hit⟩

end Simulation

end ScopeScript
