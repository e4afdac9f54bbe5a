import Mathlib.Order.Lattice.Nat
import ScopeScript.Proofs.Interruption
import ScopeScript.Proofs.NoOuterMutation

/-!
# The limit of calls

How deeply calls may nest can be limited. **The limit is exact and has no other effect**
(`ScopeScript.call_limit_exact`): a run in which at most so many calls of closures are in progress
at once is the same with the limit as without, and any other run fails at the first call too many,
having printed part of what it would have printed.

The moments of a run account for the calls in progress: those that began since the start are the
calls on the way from the start to the moment (`ScopeScript.Moment.InProgress`), and the state
counts them (`ScopeScript.Moment.InProgress.depth_eq`). To limit calls is stricter than not to, and
the calls with which a run deals differently for the limit are those that begin when it is reached
(`ScopeScript.Moment.exceeds_iff_disputed`), so the run fails at the first of them.
-/

namespace ScopeScript

/-! ### With and without a limit -/

/-- The same options, **without a limit** of calls. -/
def Options.unlimited (opts : Options) : Options :=
  { opts with maxCallDepth := none }

/-- The same options, with the given limit of calls. -/
def Options.limitedTo (opts : Options) (limit : Nat) : Options :=
  { opts with maxCallDepth := some limit }

/-- The interpreter without a limit of calls. -/
def Interpreter.unlimited (it : Interpreter) : Interpreter :=
  { it with options := it.options.unlimited }

/-- The interpreter with the given limit of calls. -/
def Interpreter.limitedTo (it : Interpreter) (limit : Nat) : Interpreter :=
  { it with options := it.options.limitedTo limit }

/-! ### Calls in progress -/

/-- How many calls of closures **begin** with a task: a call of a closure is one, and goes on while
its parts are done. The builtin procedure has no parts. -/
def Task.callsBegun : Task → Nat
  | .call (.closure _) _ _ => 1
  | _ => 0

theorem Task.callsBegun_le_one (task : Task) : task.callsBegun ≤ 1 := by
  fun_cases Task.callsBegun task
  · exact Nat.le_refl 1
  · exact Nat.zero_le 1

section Counting

variable (opts : Options) (turns : Nat)

/-- **So many calls of closures are in progress** at a moment, of those that began since the
start. -/
inductive Moment.InProgress (start : Moment) : Nat → Moment → Prop
  /-- None has begun at the start. -/
  | start : InProgress start 0 start
  /-- A part of a call is done while the call is in progress. -/
  | step {k : Nat} {m m₁ : Moment} (h : InProgress start k m)
    (hstep : Moment.Step opts turns m m₁) : InProgress start (k + m.task.callsBegun) m₁

/-- The run comes to **a call that the limit does not allow**. -/
inductive Moment.Exceeds (limit : Nat) : Moment → Prop
  /-- A call begins although as many as the limit are in progress. -/
  | here {m m₁ : Moment} (hstep : Moment.Step opts turns m m₁) (hcall : m.task.callsBegun ≠ 0)
    (hlimit : limit ≤ m.state.depth) : Exceeds limit m
  /-- A part comes to such a call. -/
  | later {m m₁ : Moment} (hstep : Moment.Step opts turns m m₁) (h : Exceeds limit m₁) :
    Exceeds limit m

end Counting

section Counting

variable {opts : Options} {turns n limit k : Nat} {site : Site} {st : State}

theorem depth_of_evaluate {e : Expr} {v : Value} {st₁ : State}
    (h : evaluate (call opts turns n) site e st = .done v st₁) : st₁.depth = st.depth := by
  have hkept : (evaluate (call opts turns n) site e st).Leads (st.Kept none) :=
    evaluate_kept (call_keeps opts turns n) e st
  rw [h] at hkept
  exact hkept.depth_eq

theorem depth_of_evaluateAll {es : List Expr} {vs : List Value} {st₁ : State}
    (h : evaluateAll (call opts turns n) site es st = .done vs st₁) : st₁.depth = st.depth := by
  have hkept : (evaluateAll (call opts turns n) site es st).Leads (st.Kept none) :=
    evaluateAll_kept (call_keeps opts turns n) es st
  rw [h] at hkept
  exact hkept.depth_eq

theorem depth_of_execute {s : Stmt} {flow : Flow} {st₁ : State}
    (h : execute opts (call opts turns n) turns site s st = .done flow st₁) :
    st₁.depth = st.depth := by
  have heffect : (execute opts (call opts turns n) turns site s st).Ends
      (st.Effect site.scope s) fun _ => st.Kept none :=
    execute_effect (call_keeps opts turns n) s site st
  rw [h] at heffect
  exact heffect.kept.depth_eq

theorem depth_of_executeAll {ss : List Stmt} {last : Value} {flow : Flow} {st₁ : State}
    (h : executeAll opts (call opts turns n) turns site last ss st = .done flow st₁) :
    st₁.depth = st.depth := by
  have hkept : (executeAll opts (call opts turns n) turns site last ss st).Leads
      (st.Kept (some site.scope.frame)) :=
    executeAll_kept (call_keeps opts turns n) ss last site st
  rw [h] at hkept
  exact hkept.depth_eq

/-- **The state counts the calls that begin**, and each of them is one less that may nest. -/
theorem Moment.Step.depth_eq {m m₁ : Moment} (h : Moment.Step opts turns m m₁) :
    m₁.state.depth = m.state.depth + m.task.callsBegun ∧
      m₁.calls + m.task.callsBegun = m.calls := by
  cases h with
  | operand | head | value | block | loop | first | test | body => exact ⟨rfl, rfl⟩
  | right h | undecided h _ | arguments h | tail h | turn h _ => exact ⟨depth_of_evaluate h, rfl⟩
  | yes h _ | no h _ =>
    have hdepth := depth_of_evaluate h
    exact ⟨hdepth, rfl⟩
  | call h hargs => exact ⟨(depth_of_evaluateAll hargs).trans (depth_of_evaluate h), rfl⟩
  | rest h => exact ⟨depth_of_execute h, rfl⟩
  | again h _ hbody => exact ⟨(depth_of_executeAll hbody).trans (depth_of_evaluate h), rfl⟩

/-- **The calls in progress are those that the state counts**, and no more than may nest. -/
theorem Moment.InProgress.depth_eq {m₀ m : Moment} (h : Moment.InProgress opts turns m₀ k m) :
    m.state.depth = m₀.state.depth + k ∧ m.calls + k = m₀.calls := by
  induction h with
  | start => exact ⟨rfl, rfl⟩
  | step _ hstep ih =>
    have := hstep.depth_eq
    omega

/-- At any moment there is a **largest number** of calls that will be in progress at once. -/
theorem Moment.exists_isGreatest_inProgress (opts : Options) (turns : Nat) (m₀ : Moment) :
    ∃ most, IsGreatest {k | ∃ m, Moment.InProgress opts turns m₀ k m} most := by
  have hbound : ∀ k ∈ {k | ∃ m, Moment.InProgress opts turns m₀ k m}, k ≤ m₀.calls := by
    rintro k ⟨m, h⟩
    have := h.depth_eq
    omega
  refine ⟨_, Nat.sSup_mem ⟨0, m₀, .start⟩ ⟨m₀.calls, hbound⟩, fun k hk => ?_⟩
  exact le_csSup ⟨m₀.calls, hbound⟩ hk

theorem Moment.InProgress.exceeds {m₀ m : Moment} (h : Moment.InProgress opts turns m₀ k m)
    (hm : m.Exceeds opts turns limit) : m₀.Exceeds opts turns limit := by
  induction h with
  | start => exact hm
  | step _ hstep ih => exact ih (.later hstep hm)

/-- The limit is exceeded **if more calls are in progress** at once than it leaves room for. -/
theorem Moment.InProgress.exceeds_of_lt {m₀ m : Moment}
    (h : Moment.InProgress opts turns m₀ k m) (hlt : limit - m₀.state.depth < k) :
    m₀.Exceeds opts turns limit := by
  induction h with
  | start => exact absurd hlt (Nat.not_lt_zero _)
  | @step k m m₁ h hstep ih =>
    by_cases hk : limit - m₀.state.depth < k
    · exact ih hk
    · -- the limit was kept up to here, so it is this call that is too many
      have hle : limit ≤ m.state.depth := by
        have := h.depth_eq
        have := m.task.callsBegun_le_one
        omega
      exact h.exceeds (.here hstep (by omega) hle)

/-- Otherwise there are **so many** calls in progress at some moment. -/
theorem Moment.Exceeds.exists_inProgress {m₀ m : Moment} (hm : m.Exceeds opts turns limit)
    (h : Moment.InProgress opts turns m₀ k m) :
    ∃ k m, Moment.InProgress opts turns m₀ k m ∧ limit - m₀.state.depth < k := by
  induction hm generalizing k with
  | here hstep hcall hlimit =>
    refine ⟨_, _, h.step hstep, ?_⟩
    have := h.depth_eq
    omega
  | later hstep _ ih => exact ih (h.step hstep)

/-- **The limit is exceeded exactly if** it leaves room for fewer calls than will be in
progress. -/
theorem Moment.exceeds_iff_lt {m₀ : Moment} {most : Nat}
    (h : IsGreatest {k | ∃ m, Moment.InProgress opts turns m₀ k m} most) :
    m₀.Exceeds opts turns limit ↔ limit - m₀.state.depth < most := by
  constructor
  · intro hm
    obtain ⟨k, m, hk, hlt⟩ := hm.exists_inProgress .start
    exact Nat.lt_of_lt_of_le hlt (h.2 ⟨m, hk⟩)
  · intro hlt
    obtain ⟨m, hm⟩ := h.1
    exact hm.exceeds_of_lt hlt

end Counting

/-! ### Cutting a run short -/

/-- **How a run with the limit comes out**, next to the run without: the same, unless the run
comes to a call that the limit does not allow; then it fails for the limit, and what it printed is
the beginning of what the run without the limit prints. Of a run without an end nothing is said. -/
inductive Outcome.CutBy {α : Type} (limit : Nat) (deep : Prop) : Outcome α → Outcome α → Prop
  /-- The run without the limit does not end. -/
  | unfinished {o' : Outcome α} : CutBy limit deep .unfinished o'
  /-- The limit is kept. -/
  | same {o : Outcome α} (h : ¬ deep) : CutBy limit deep o o
  /-- The run fails for the limit. -/
  | cut {o : Outcome α} {span : Span} {st' : State} (h : deep)
    (hout : o.Leads fun st₁ => st'.output.toList <+: st₁.output.toList) :
    CutBy limit deep o (.failed (.tooManyCalls limit span) st')

section Limits

variable {opts : Options} {turns limit k : Nat} {decl : FunctionDecl} {args : List Value}

/-- To limit calls is **stricter**. -/
theorem Options.unlimited_stricter (opts : Options) (limit : Nat) :
    opts.unlimited.Stricter (opts.limitedTo limit) where
  reclaim_eq := rfl
  refusal?_eq_none h := Options.refusal?_eq_none_iff.mpr ⟨(Options.refusal?_eq_none h).1, nofun⟩

theorem Options.refusal?_unlimited
    (harity : ¬ (opts.strictArity ∧ args.length ≠ decl.params.length)) (span : Span)
    (depth : Nat) : opts.unlimited.refusal? decl args span depth = none :=
  if_neg harity

theorem Options.refusal?_limitedTo
    (harity : ¬ (opts.strictArity ∧ args.length ≠ decl.params.length)) (span : Span)
    (depth : Nat) : (opts.limitedTo limit).refusal? decl args span depth =
      if limit ≤ depth then some (.tooManyCalls limit span) else none :=
  if_neg harity

/-- A call that is treated differently with the limit is a call of a closure that **begins when the
limit is reached**, and would be answered without. -/
theorem Moment.exists_of_disputed {m : Moment}
    (h : m.refusal? (opts.limitedTo limit) ≠ m.refusal? opts.unlimited) :
    ∃ n c args span st, m = ⟨n, .call (.closure c) args span, st⟩ ∧
      ¬ (opts.strictArity ∧ args.length ≠ c.decl.params.length) ∧ limit ≤ st.depth := by
  obtain ⟨n, task, st⟩ := m
  cases task with
  | call v args span =>
    cases v with
    | closure c =>
      rw [Moment.refusal?_call, Moment.refusal?_call] at h
      by_cases harity : opts.strictArity ∧ args.length ≠ c.decl.params.length
      · rw [(opts.limitedTo limit).refusal?_of_arity harity,
          opts.unlimited.refusal?_of_arity harity] at h
        exact absurd rfl h
      · rw [Options.refusal?_limitedTo harity, Options.refusal?_unlimited harity] at h
        exact ⟨n, c, args, span, st, rfl, harity, by_contra fun hlimit => h (if_neg hlimit)⟩
    | _ => exact absurd rfl h
  | _ => exact absurd rfl h

/-- Such a call is not refused **without the limit**. -/
theorem Moment.refusal?_unlimited_of_disputed {m : Moment}
    (hdisputed : m.refusal? (opts.limitedTo limit) ≠ m.refusal? opts.unlimited) :
    m.refusal? opts.unlimited = none := by
  obtain ⟨n, c, args, span, st, rfl, harity, -⟩ := Moment.exists_of_disputed hdisputed
  exact Options.refusal?_unlimited harity span st.depth

/-- With the limit, such a call is refused **for the limit**. -/
theorem Moment.exists_tooManyCalls_of_disputed {m : Moment} {e : RuntimeError}
    (hdisputed : m.refusal? (opts.limitedTo limit) ≠ m.refusal? opts.unlimited)
    (herror : m.refusal? (opts.limitedTo limit) = some e) :
    ∃ span, e = .tooManyCalls limit span := by
  obtain ⟨n, c, args, span, st, rfl, harity, hlimit⟩ := Moment.exists_of_disputed hdisputed
  rw [Moment.refusal?_call, Options.refusal?_limitedTo harity, if_pos hlimit] at herror
  exact ⟨span, (Option.some.inj herror).symm⟩

/-- A run exceeds the limit exactly if it comes to **a call that is treated differently** with the
limit, and that may still nest. -/
theorem Moment.exceeds_iff_disputed {m₀ : Moment} : m₀.Exceeds opts.unlimited turns limit ↔
    ∃ m, Moment.Visits opts.unlimited turns m₀ m ∧ m.calls ≠ 0 ∧
      m.refusal? (opts.limitedTo limit) ≠ m.refusal? opts.unlimited := by
  constructor
  · intro h
    induction h with
    | @here m m₁ hstep hcall hlimit =>
      refine ⟨m, .refl, ?_⟩
      cases hstep with
      | @body n c args span st harity _ =>
        have harity : ¬ (opts.strictArity ∧ args.length ≠ c.decl.params.length) := harity
        rw [Moment.refusal?_call, Moment.refusal?_call, Options.refusal?_limitedTo harity,
          Options.refusal?_unlimited harity, if_pos hlimit]
        exact ⟨Nat.succ_ne_zero n, nofun⟩
      | _ => exact absurd rfl hcall
    | later hstep _ ih =>
      obtain ⟨m, hvisits, hm⟩ := ih
      exact ⟨m, hvisits.head hstep, hm⟩
  · rintro ⟨m, hvisits, hcalls, hdisputed⟩
    induction hvisits using Relation.ReflTransGen.head_induction_on with
    | refl =>
      obtain ⟨n, c, args, span, st, rfl, harity, hlimit⟩ := Moment.exists_of_disputed hdisputed
      obtain ⟨n, rfl⟩ := Nat.exists_eq_succ_of_ne_zero hcalls
      exact .here (.body harity nofun) Nat.one_ne_zero hlimit
    | head hstep _ ih => exact .later hstep ih

end Limits

/-! ### Programs -/

theorem Interpreter.run_depth {it it' : Interpreter} {bounds : Bounds} {p : Program}
    {r : Except RuntimeError Value} (h : it.run bounds p = some (r, it')) :
    it'.state.depth = it.state.depth := by
  have hkept := it.executeAll_kept bounds it.nextText.1 p.statements it.state
  rw [Interpreter.run_apply] at h
  generalize it.executeAll bounds it.nextText.1 p.statements it.state = o at h hkept
  cases o with
  | done flow st =>
    cases h
    exact hkept.depth_eq
  | failed e st =>
    cases h
    exact hkept.depth_eq
  | unfinished => contradiction

/-- **A program is cut short by the limit** exactly if it exceeds it. -/
theorem Interpreter.executeAll_cutBy (it : Interpreter) (bounds : Bounds) (p : Program)
    (limit : Nat) : Outcome.CutBy limit
      ((it.unlimited.start bounds p).Exceeds it.unlimited.options bounds.turns limit)
      (it.unlimited.executeAll bounds it.unlimited.nextText.1 p.statements it.unlimited.state)
      ((it.limitedTo limit).executeAll bounds (it.limitedTo limit).nextText.1 p.statements
        (it.limitedTo limit).state) := by
  have hsecond : Outcome.InterruptedAt it.unlimited.options (it.options.limitedTo limit) _
      (it.unlimited.executeAll bounds it.unlimited.nextText.1 p.statements it.unlimited.state)
      ((it.limitedTo limit).executeAll bounds (it.limitedTo limit).nextText.1 p.statements
        (it.limitedTo limit).state) :=
    (it.unlimited.executeAll_interrupted (it.options.unlimited_stricter limit) bounds
      p).interruptedAt
  have hdeep : (it.unlimited.start bounds p).Exceeds it.unlimited.options bounds.turns limit ↔
      ∃ m, Moment.Visits it.unlimited.options bounds.turns (it.unlimited.start bounds p) m ∧
        m.calls ≠ 0 ∧
        m.refusal? (it.options.limitedTo limit) ≠ m.refusal? it.unlimited.options :=
    Moment.exceeds_iff_disputed
  generalize hfirst : Moment.firstDisputed? it.unlimited.options (it.options.limitedTo limit)
    bounds.turns [it.unlimited.start bounds p] = first at hsecond
  generalize it.unlimited.executeAll bounds it.unlimited.nextText.1 p.statements
    it.unlimited.state = o at hsecond ⊢
  generalize (it.limitedTo limit).executeAll bounds (it.limitedTo limit).nextText.1 p.statements
    (it.limitedTo limit).state = o' at hsecond ⊢
  cases hsecond with
  | unfinished => exact .unfinished
  | same =>
    refine .same fun h => ?_
    obtain ⟨m, hvisits, -, hdisputed⟩ := hdeep.mp h
    exact hdisputed (Moment.firstDisputed?_eq_none.mp hfirst m hvisits)
  | @stopped m e st' _ herror hbegins hout hgrows =>
    obtain ⟨hdisputed, hvisits⟩ := Moment.firstDisputed?_eq_some hfirst
    have hcalls : m.calls ≠ 0 := hbegins (Moment.refusal?_unlimited_of_disputed hdisputed)
    obtain ⟨span, rfl⟩ := Moment.exists_tooManyCalls_of_disputed hdisputed herror
    rw [Outcome.Grows, ← hout] at hgrows
    exact .cut (hdeep.mpr ⟨m, hvisits, hcalls, hdisputed⟩) hgrows

/-- **The limit of calls is exact and has no other effect.** Let a program come to an end without a
limit, and let `most` be the largest number of calls of closures that are in progress at once. With
a limit that leaves room for so many calls, beside those in progress when the program starts, the
program comes to the same end in the same state. With any lower limit, it fails for the limit, and
the lines printed are the first of those printed without a limit.

Whatever the options, a program and a call from outside leave as many calls in progress as there
were before, and the builtin procedure is answered however many there are. -/
theorem call_limit_exact (it : Interpreter) (bounds : Bounds) :
    (∀ p r it', it.unlimited.run bounds p = some (r, it') →
      ∃ most, IsGreatest {k | ∃ m, Moment.InProgress it.unlimited.options bounds.turns
          (it.unlimited.start bounds p) k m} most ∧
        ∀ limit,
          (most ≤ limit - it.state.depth →
            (it.limitedTo limit).run bounds p = some (r, it'.limitedTo limit)) ∧
          (limit - it.state.depth < most →
            ∃ span it'', (it.limitedTo limit).run bounds p =
              some (.error (.tooManyCalls limit span), it'') ∧ it''.output <+: it'.output)) ∧
    (∀ p r it', it.run bounds p = some (r, it') → it'.state.depth = it.state.depth) ∧
    (∀ v args span st, (it.call bounds v args span st).Leads fun st' => st'.depth = st.depth) ∧
    ∀ args span st, it.call bounds .builtin args span st =
      .done .null (st.print (" ".intercalate (args.map Value.render))) := by
  refine ⟨fun p r it' h => ?_, fun p r it' => Interpreter.run_depth, fun v args span st => ?_,
    fun args span st => ?_⟩
  · obtain ⟨most, hmost⟩ := Moment.exists_isGreatest_inProgress it.unlimited.options bounds.turns
      (it.unlimited.start bounds p)
    refine ⟨most, hmost, fun limit => ?_⟩
    have hcut := it.executeAll_cutBy bounds p limit
    rw [Moment.exceeds_iff_lt hmost] at hcut
    rw [Interpreter.run_apply] at h ⊢
    generalize it.unlimited.executeAll bounds it.unlimited.nextText.1 p.statements
      it.unlimited.state = o at h hcut
    generalize (it.limitedTo limit).executeAll bounds (it.limitedTo limit).nextText.1 p.statements
      (it.limitedTo limit).state = o' at hcut
    cases hcut with
    | unfinished => contradiction
    | same hdeep =>
      refine ⟨fun _ => ?_, fun hlt => absurd hlt hdeep⟩
      cases o with
      | done flow st =>
        cases h
        rfl
      | failed e st =>
        cases h
        rfl
      | unfinished => contradiction
    | cut hdeep hout =>
      refine ⟨fun hle => absurd hdeep (Nat.not_lt_of_le hle), fun _ => ⟨_, _, rfl, ?_⟩⟩
      cases o with
      | done flow st =>
        cases h
        exact hout
      | failed e st =>
        cases h
        exact hout
      | unfinished => contradiction
  · exact (call_keeps _ _ _ v args span st).imp (fun _ _ h => h.depth_eq) fun _ _ h => h.depth_eq
  · rw [Interpreter.call, call_eq_answer, answer_builtin]

/-- A program with **a call inside a call**: the first prints a line and calls its argument. -/
def callInCall : Program :=
  ⟨[.function "f" ["g"]
      (.mk [.print (.literal (.text "f") .none) .none,
        .expression (.call (.name "g" .none) [] .none)] .none) .none,
    .function "h" [] (.mk [] .none) .none,
    .expression (.call (.name "f" .none) [.name "h" .none] .none)]⟩

/-- Two calls are in progress at once, so the program does not come to its end where one is
allowed. -/
theorem call_limit_exact_callInCall :
    ∃ r it', (Interpreter.new {}).unlimited.run ⟨1, 2⟩ callInCall = some (r, it') ∧
      ∃ span it'', ((Interpreter.new {}).limitedTo 1).run ⟨1, 2⟩ callInCall =
        some (.error (.tooManyCalls 1 span), it'') ∧ it''.output <+: it'.output := by
  obtain ⟨most, hmost, hlimit⟩ :=
    (call_limit_exact (Interpreter.new {}) ⟨1, 2⟩).1 callInCall _ _ rfl
  -- the call of `f`, and in its body that of `h`
  have htwo : ∃ m, Moment.InProgress (Interpreter.new {}).unlimited.options 1
      ((Interpreter.new {}).unlimited.start ⟨1, 2⟩ callInCall) 2 m :=
    ⟨_, .step (.step (.step (.step (.step (.step (.step (.step (.step (.step (.step .start
      (.rest rfl)) (.rest rfl)) .first) (.value rfl)) (.call rfl rfl))
      (.body (by decide) (by decide))) (.rest rfl)) .first) (.value rfl)) (.call rfl rfl))
      (.body (by decide) (by decide))⟩
  exact ⟨_, _, rfl, (hlimit 1).2 (hmost.2 htwo)⟩

end ScopeScript
