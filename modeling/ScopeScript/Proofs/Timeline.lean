import ScopeScript.Proofs.Stops

/-!
# Moments in the order in which they come

The moments to which a moment leads are its **parts** (`ScopeScript.Moment.parts`): what is done
first, then, if that has a result, what is done next, and so on. With the parts of the parts, the
moments of a run stand in a row (`ScopeScript.Moment.timeline`), each before its own parts and these
before what comes later. The row has the moments to which the run comes, and no others
(`ScopeScript.Moment.mem_timeline_iff`).

So it can be said what happens *first* in a run, and what had happened before.
-/

namespace ScopeScript

/-- A step leads **to a result of which something holds**. -/
def Outcome.Passes {α : Type} (o : Outcome α) (P : α → State → Prop) : Prop :=
  ∃ a st, o = .done a st ∧ P a st

/-- What is done **after a result**; nothing, if there is none. -/
def Outcome.onward {α : Type} (o : Outcome α) (next : α → State → List Moment) : List Moment :=
  match o with
  | .done a st => next a st
  | _ => []

theorem Outcome.mem_onward {α : Type} {o : Outcome α} {next : α → State → List Moment}
    {m : Moment} : m ∈ o.onward next ↔ o.Passes fun a st => m ∈ next a st := by
  cases o <;> simp [onward, Passes]

/-- A call is **not refused** exactly if the arguments and the limit allow it. -/
theorem Options.refusal?_eq_none_iff {opts : Options} {decl : FunctionDecl} {args : List Value}
    {span : Span} {depth : Nat} : opts.refusal? decl args span depth = none ↔
      ¬ (opts.strictArity ∧ args.length ≠ decl.params.length) ∧
        ∀ limit, opts.maxCallDepth = some limit → depth < limit := by
  refine ⟨refusal?_eq_none, fun ⟨harity, hlimit⟩ => ?_⟩
  rw [refusal?, if_neg harity]
  split
  · next limit h => exact if_neg (Nat.not_le_of_lt (hlimit limit h))
  · rfl

section Parts

variable (opts : Options) (turns : Nat)

/-- The **parts of an expression**, in the order in which they are evaluated. -/
def Moment.ofExpression (n : Nat) (site : Site) (st : State) : Expr → List Moment
  | .literal _ _ | .name _ _ => []
  | .binary _ l r _ =>
    ⟨n, .expression site l, st⟩ :: (evaluate (call opts turns n) site l st).onward fun _ st =>
      [⟨n, .expression site r, st⟩]
  | .logical op l r _ =>
    ⟨n, .expression site l, st⟩ :: (evaluate (call opts turns n) site l st).onward fun a st =>
      if op.decides a then [] else [⟨n, .expression site r, st⟩]
  | .unary _ e _ => [⟨n, .expression site e, st⟩]
  | .call f args span =>
    ⟨n, .expression site f, st⟩ :: (evaluate (call opts turns n) site f st).onward fun v st =>
      ⟨n, .expressions site args, st⟩ ::
        (evaluateAll (call opts turns n) site args st).onward fun vs st =>
          [⟨n, .call v vs span, st⟩]

/-- The part of a call: **the body of the closure**, if the call is not refused. -/
def Moment.ofCall (args : List Value) (span : Span) (st : State) : Value → Nat → List Moment
  | .closure c, n + 1 =>
    if opts.refusal? c.decl args span st.depth = none then
      [⟨n, .statements (Site.enter ⟨c.text, c.scope⟩ st) c.decl.body.statements,
        st.activate c args⟩]
    else []
  | _, _ => []

/-- The block that a conditional **goes on with**. -/
def Value.branch (v : Value) (b : Block) (c : Option Block) : Option Block :=
  if v.truthy then some b else c

/-- What is done for a block: its statements, in a new scope. -/
def Moment.ofBlock (n : Nat) (site : Site) (st : State) (b : Block) : Moment :=
  ⟨n, .statements (site.enter st) b.statements, st.enter site.scope⟩

/-- The **parts of a statement**, in the order in which they are done. -/
def Moment.ofStatement (n : Nat) (site : Site) (st : State) : Stmt → List Moment
  | .declare _ (some e) _ | .print e _ | .exit e _ | .expression e =>
    [⟨n, .expression site e, st⟩]
  | .declare _ none _ | .function _ _ _ _ => []
  | .block b => [ofBlock n site st b]
  | .conditional test b c _ =>
    ⟨n, .expression site test, st⟩ ::
      (evaluate (call opts turns n) site test st).onward fun v st =>
        ((v.branch b c).map (ofBlock n site st)).toList
  | .loop test b _ => [⟨n, .loop (site.enter st) test b.statements turns, st.enter site.scope⟩]

/-- The **parts of a moment's work**, in the order in which they are done. -/
def Moment.parts : Moment → List Moment
  | ⟨n, .expression site e, st⟩ => ofExpression opts turns n site st e
  | ⟨_, .expressions _ [], _⟩ => []
  | ⟨n, .expressions site (e :: es), st⟩ =>
    ⟨n, .expression site e, st⟩ :: (evaluate (call opts turns n) site e st).onward fun _ st =>
      [⟨n, .expressions site es, st⟩]
  | ⟨n, .call v args span, st⟩ => ofCall opts args span st v n
  | ⟨n, .statement site s, st⟩ => ofStatement opts turns n site st s
  | ⟨_, .statements _ [], _⟩ => []
  | ⟨n, .statements site (s :: ss), st⟩ =>
    ⟨n, .statement site s, st⟩ ::
      (execute opts (call opts turns n) turns site s st).onward fun flow st =>
        match flow with
        | .normal _ => [⟨n, .statements site ss, st⟩]
        | .exit _ => []
  | ⟨_, .loop _ _ _ 0, _⟩ => []
  | ⟨n, .loop site test body (k + 1), st⟩ =>
    ⟨n, .expression site test, st⟩ ::
      (evaluate (call opts turns n) site test st).onward fun v st =>
        if v.truthy then
          ⟨n, .statements site body, st⟩ ::
            (executeAll opts (call opts turns n) turns site .null body st).onward fun flow st =>
              match flow with
              | .normal _ => [⟨n, .loop site test body k, st⟩]
              | .exit _ => []
        else []

variable {opts turns}

namespace Moment

variable {n : Nat} {site : Site} {st : State} {m m₁ : Moment}

theorem Step.mem_parts (h : Step opts turns m m₁) : m₁ ∈ m.parts opts turns := by
  cases h with
  | @operand _ _ e _ _ h =>
    cases e <;> cases h <;> simp [parts, ofExpression]
  | right h | arguments h => simp [parts, ofExpression, h, Outcome.onward]
  | undecided h hop => simp [parts, ofExpression, h, Outcome.onward, hop]
  | call h hargs => simp [parts, ofExpression, h, hargs, Outcome.onward]
  | head | first | test => simp [parts]
  | tail h | rest h => simp [parts, h, Outcome.onward]
  | body harity hlimit =>
    simp [parts, ofCall, Options.refusal?_eq_none_iff.mpr ⟨harity, hlimit⟩]
  | @value _ _ s _ _ h =>
    rcases s with _ | _ | _ | ⟨_, _, _ | _, _⟩ | _ | _ | _ | _ <;> cases h <;>
      simp [parts, ofStatement]
  | block | loop => simp [parts, ofStatement, ofBlock]
  | yes h hv | no h hv =>
    simp [parts, ofStatement, h, hv, Outcome.onward, Value.branch, ofBlock]
  | turn h hv => simp [parts, h, hv, Outcome.onward]
  | again h hv hbody => simp [parts, h, hv, hbody, Outcome.onward]

theorem step_of_mem_ofExpression {e : Expr} (h : m₁ ∈ ofExpression opts turns n site st e) :
    Step opts turns ⟨n, .expression site e, st⟩ m₁ := by
  cases e with
  | literal | name => cases h
  | unary op e span =>
    obtain rfl := List.mem_singleton.mp h
    exact .operand rfl
  | binary op l r span =>
    rcases List.mem_cons.mp h with rfl | h
    · exact .operand rfl
    · obtain ⟨a, st₁, hl, h⟩ := Outcome.mem_onward.mp h
      obtain rfl := List.mem_singleton.mp h
      exact .right hl
  | logical op l r span =>
    rcases List.mem_cons.mp h with rfl | h
    · exact .operand rfl
    · obtain ⟨a, st₁, hl, h⟩ := Outcome.mem_onward.mp h
      split at h
      · cases h
      · next hop =>
        obtain rfl := List.mem_singleton.mp h
        exact .undecided hl (eq_false_of_ne_true hop)
  | call f args span =>
    rcases List.mem_cons.mp h with rfl | h
    · exact .operand rfl
    · obtain ⟨v, st₁, hf, h⟩ := Outcome.mem_onward.mp h
      rcases List.mem_cons.mp h with rfl | h
      · exact .arguments hf
      · obtain ⟨vs, st₂, hargs, h⟩ := Outcome.mem_onward.mp h
        obtain rfl := List.mem_singleton.mp h
        exact .call hf hargs

theorem step_of_mem_ofCall {v : Value} {args : List Value} {span : Span}
    (h : m₁ ∈ ofCall opts args span st v n) : Step opts turns ⟨n, .call v args span, st⟩ m₁ := by
  unfold ofCall at h
  split at h
  · split at h
    · next hrefusal =>
      obtain ⟨harity, hlimit⟩ := Options.refusal?_eq_none hrefusal
      obtain rfl := List.mem_singleton.mp h
      exact .body harity hlimit
    · cases h
  · cases h

theorem step_of_mem_ofStatement {s : Stmt} (h : m₁ ∈ ofStatement opts turns n site st s) :
    Step opts turns ⟨n, .statement site s, st⟩ m₁ := by
  cases s with
  | declare name e span =>
    cases e with
    | none => cases h
    | some e =>
      obtain rfl := List.mem_singleton.mp h
      exact .value rfl
  | print | exit | expression =>
    obtain rfl := List.mem_singleton.mp h
    exact .value rfl
  | function => cases h
  | block b =>
    obtain rfl := List.mem_singleton.mp h
    exact .block
  | conditional test b c span =>
    rcases List.mem_cons.mp h with rfl | h
    · exact .value rfl
    · obtain ⟨v, st₁, htest, h⟩ := Outcome.mem_onward.mp h
      cases hv : v.truthy with
      | true =>
        rw [Value.branch, if_pos hv] at h
        obtain rfl := List.mem_singleton.mp h
        exact .yes htest hv
      | false =>
        rw [Value.branch, if_neg (by simp [hv])] at h
        cases c with
        | none => cases h
        | some c =>
          obtain rfl := List.mem_singleton.mp h
          exact .no htest hv
  | loop =>
    obtain rfl := List.mem_singleton.mp h
    exact .loop

/-- **The parts of a moment are the moments to which it leads.** -/
theorem mem_parts_iff : m₁ ∈ m.parts opts turns ↔ Step opts turns m m₁ := by
  refine ⟨fun h => ?_, Step.mem_parts⟩
  obtain ⟨n, task, st⟩ := m
  cases task with
  | expression site e => exact step_of_mem_ofExpression h
  | expressions site es =>
    cases es with
    | nil => cases h
    | cons e es =>
      rcases List.mem_cons.mp h with rfl | h
      · exact .head
      · obtain ⟨v, st₁, he, h⟩ := Outcome.mem_onward.mp h
        obtain rfl := List.mem_singleton.mp h
        exact .tail he
  | call v args span => exact step_of_mem_ofCall h
  | statement site s => exact step_of_mem_ofStatement h
  | statements site ss =>
    cases ss with
    | nil => cases h
    | cons s ss =>
      rcases List.mem_cons.mp h with rfl | h
      · exact .first
      · obtain ⟨flow, st₁, hs, h⟩ := Outcome.mem_onward.mp h
        cases flow with
        | exit v => cases h
        | normal v =>
          obtain rfl := List.mem_singleton.mp h
          exact .rest hs
  | loop site test body k =>
    cases k with
    | zero => cases h
    | succ k =>
      rcases List.mem_cons.mp h with rfl | h
      · exact .test
      · obtain ⟨v, st₁, htest, h⟩ := Outcome.mem_onward.mp h
        split at h
        · next hv =>
          rcases List.mem_cons.mp h with rfl | h
          · exact .turn htest hv
          · obtain ⟨flow, st₂, hbody, h⟩ := Outcome.mem_onward.mp h
            cases flow with
            | exit v => cases h
            | normal v =>
              obtain rfl := List.mem_singleton.mp h
              exact .again htest hv hbody
        · cases h

/-! ### All moments in a row -/

variable (opts turns)

/-- **The moments of a run, in the order in which they come**: a moment stands before its parts. -/
def timeline (m : Moment) : List Moment :=
  m :: (m.parts opts turns).attach.flatMap fun m₁ => timeline m₁.1
termination_by m.left
decreasing_by exact (mem_parts_iff.mp m₁.2).left_lt

variable {opts turns}

theorem timeline_eq (m : Moment) :
    m.timeline opts turns = m :: (m.parts opts turns).flatMap (timeline opts turns) := by
  rw [timeline]
  simp [List.flatMap_subtype]

/-- **A run comes to the moments in the row**, and to no others. -/
theorem mem_timeline_iff : m₁ ∈ m.timeline opts turns ↔ Visits opts turns m m₁ := by
  constructor
  · intro h
    induction m using (wellFounded_step opts turns).induction with
    | h m ih =>
      rw [timeline_eq] at h
      rcases List.mem_cons.mp h with rfl | h
      · exact .refl
      · obtain ⟨m₂, hm₂, h⟩ := List.mem_flatMap.mp h
        have hstep := mem_parts_iff.mp hm₂
        exact (ih m₂ hstep h).head hstep
  · intro h
    induction h using Relation.ReflTransGen.head_induction_on with
    | refl =>
      rw [timeline_eq]
      exact List.mem_cons_self
    | head hstep _ ih =>
      rw [timeline_eq]
      exact List.mem_cons_of_mem _ (List.mem_flatMap.mpr ⟨_, hstep.mem_parts, ih⟩)

end Moment

end Parts

end ScopeScript
