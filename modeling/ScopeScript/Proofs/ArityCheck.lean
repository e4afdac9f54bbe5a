import ScopeScript.Proofs.Interruption

/-!
# Counting arguments

A closure can be called with any number of arguments, unless it is chosen that they are counted.
**Counting only adds its own error** (`ScopeScript.strict_run_of_lenient`): a run in which every
call of a closure has as many arguments as there are parameters is the same when arguments are
counted; any other run fails at the first call that has not, and up to there it has done the same.

Which call is the first can be read off the moments of the run in the order in which they come. To
count arguments is stricter than not to, and the calls with which a run deals differently for that
are those that do not fit (`ScopeScript.Moment.refusal?_strict_eq_iff`), so the run fails at the
first of them.
-/

namespace ScopeScript

/-! ### With arguments counted or not -/

/-- The same options, with arguments **not counted**. -/
def Options.lenient (opts : Options) : Options :=
  { opts with strictArity := false }

/-- The same options, with arguments **counted**. -/
def Options.strict (opts : Options) : Options :=
  { opts with strictArity := true }

/-- The interpreter that does not count arguments. -/
def Interpreter.lenient (it : Interpreter) : Interpreter :=
  { it with options := it.options.lenient }

/-- The interpreter that counts arguments. -/
def Interpreter.strict (it : Interpreter) : Interpreter :=
  { it with options := it.options.strict }

/-- **A closure that is called** gets as many arguments as it has parameters. Nothing is asked of
other tasks, and nothing of calls of other values. -/
def Task.fits : Task → Bool
  | .call (.closure c) args _ => args.length = c.decl.params.length
  | _ => true

/-! ### A run and the same run with arguments counted -/

/-- **How a run that counts arguments comes out**, next to the run that does not: the same, unless
there is a first call that does not fit; then it fails for that call, having printed what had been
printed when the call began. Of a run without an end nothing is said. -/
inductive Outcome.StoppedAt {α : Type} : Option Moment → Outcome α → Outcome α → Prop
  /-- The run that does not count arguments does not end. -/
  | unfinished {first : Option Moment} {o' : Outcome α} : StoppedAt first .unfinished o'
  /-- All calls fit. -/
  | same {o : Outcome α} : StoppedAt none o o
  /-- The run fails at the first call that does not fit. -/
  | stopped {n : Nat} {c : Closure} {args : List Value} {span : Span} {st st' : State}
    {o : Outcome α} (hout : st'.output = st.output) :
    StoppedAt (some ⟨n, .call (.closure c) args span, st⟩) o
      (.failed (.wrongArgumentCount c.decl.name c.decl.params.length args.length span) st')

/-- The **first moment in the row** whose task does not fit. -/
def Moment.firstMisfit? (opts : Options) (turns : Nat) (ms : List Moment) : Option Moment :=
  (ms.flatMap (Moment.timeline opts turns)).find? fun m => !m.task.fits

/-! ### The calls that are disputed -/

section Fitting

variable {opts : Options} {decl : FunctionDecl} {args : List Value}

/-- To count arguments is **stricter**. -/
theorem Options.lenient_stricter (opts : Options) : opts.lenient.Stricter opts.strict where
  reclaim_eq := rfl
  refusal?_eq_none h := Options.refusal?_eq_none_iff.mpr ⟨nofun, (Options.refusal?_eq_none h).2⟩

/-- A call that fits is refused **for the limit** if at all, whether arguments are counted or
not. -/
theorem Options.refusal?_strict (hfits : args.length = decl.params.length) (span : Span)
    (depth : Nat) :
    opts.strict.refusal? decl args span depth = opts.lenient.refusal? decl args span depth := by
  rw [refusal?, refusal?, if_neg fun h => h.2 hfits, if_neg fun h => h.2 hfits]
  rfl

/-- Where arguments are not counted, **their number is no reason** to refuse a call. -/
theorem Options.refusal?_lenient_ne {span place : Span} {depth expected found : Nat}
    {name : String} : opts.lenient.refusal? decl args span depth ≠
      some (.wrongArgumentCount name expected found place) := by
  intro h
  rw [refusal?, if_neg fun h => Bool.false_ne_true h.1] at h
  split at h
  · split at h
    · cases h
    · contradiction
  · contradiction

/-- What does not fit is **a call of a closure**. -/
theorem Moment.exists_of_not_fits {m : Moment} (h : m.task.fits = false) :
    ∃ n c args span st, m = ⟨n, .call (.closure c) args span, st⟩ ∧
      args.length ≠ c.decl.params.length := by
  obtain ⟨n, task, st⟩ := m
  revert h
  fun_cases Task.fits task with
  | case1 c args span => exact fun h => ⟨n, c, args, span, st, rfl, of_decide_eq_false h⟩
  | case2 => exact nofun

/-- A call that does not fit is refused **for the number of its arguments** where these are
counted, whatever the limit of calls. -/
theorem Moment.refusal?_of_not_fits {n : Nat} {c : Closure} {span : Span} {st : State}
    (hmisfit : args.length ≠ c.decl.params.length) :
    Moment.refusal? opts.strict ⟨n, .call (.closure c) args span, st⟩ =
      some (.wrongArgumentCount c.decl.name c.decl.params.length args.length span) :=
  Options.refusal?_of_arity ⟨rfl, hmisfit⟩ span st.depth

/-- The calls that do not fit, and no others, are **treated differently** where arguments are
counted. -/
theorem Moment.refusal?_strict_eq_iff {m : Moment} :
    m.refusal? opts.strict = m.refusal? opts.lenient ↔ m.task.fits = true := by
  constructor
  · intro hagreed
    by_contra hmisfit
    obtain ⟨n, c, args, span, st, rfl, hne⟩ :=
      Moment.exists_of_not_fits (eq_false_of_ne_true hmisfit)
    rw [Moment.refusal?_of_not_fits hne] at hagreed
    exact Options.refusal?_lenient_ne hagreed.symm
  · obtain ⟨n, task, st⟩ := m
    cases task with
    | call v args span =>
      cases v with
      | closure c => exact fun hfits => Options.refusal?_strict (of_decide_eq_true hfits) span _
      | _ => exact fun _ => rfl
    | _ => exact fun _ => rfl

/-- The calls that do not fit are those that are **disputed**. -/
theorem Moment.firstMisfit?_eq_firstDisputed? (turns : Nat) (ms : List Moment) :
    Moment.firstMisfit? opts.lenient turns ms =
      Moment.firstDisputed? opts.lenient opts.strict turns ms := by
  rw [firstMisfit?, firstDisputed?]
  congr 1
  funext m
  rw [Bool.eq_iff_iff, Bool.not_eq_true', disputed, decide_eq_true_iff, ne_eq,
    Moment.refusal?_strict_eq_iff, Bool.not_eq_true]

end Fitting

/-! ### Programs -/

/-- In a row of moments there is **a first one that does not fit**, or all fit. -/
theorem Moment.firstMisfit?_eq_some {opts : Options} {turns : Nat} {m m₁ : Moment}
    (h : Moment.firstMisfit? opts turns [m] = some m₁) :
    m₁.task.fits = false ∧ ∃ before after, m.timeline opts turns = before ++ m₁ :: after ∧
      ∀ m₂ ∈ before, m₂.task.fits = true := by
  rw [firstMisfit?, List.flatMap_singleton, List.find?_eq_some_iff_append] at h
  simpa using h

theorem Moment.firstMisfit?_eq_none {opts : Options} {turns : Nat} {m : Moment} :
    Moment.firstMisfit? opts turns [m] = none ↔
      ∀ m₁, Moment.Visits opts turns m m₁ → m₁.task.fits = true := by
  rw [firstMisfit?, List.flatMap_singleton, List.find?_eq_none]
  simp [mem_timeline_iff]

/-- **A program is stopped** at the first call that does not fit. -/
theorem Interpreter.executeAll_checked (it : Interpreter) (bounds : Bounds) (p : Program) :
    Outcome.StoppedAt
      (Moment.firstMisfit? it.lenient.options bounds.turns [it.lenient.start bounds p])
      (it.lenient.executeAll bounds it.lenient.nextText.1 p.statements it.lenient.state)
      (it.strict.executeAll bounds it.strict.nextText.1 p.statements it.strict.state) := by
  have hsecond : Outcome.InterruptedAt it.lenient.options it.options.strict
      (Moment.firstDisputed? it.lenient.options it.options.strict bounds.turns
        [it.lenient.start bounds p])
      (it.lenient.executeAll bounds it.lenient.nextText.1 p.statements it.lenient.state)
      (it.strict.executeAll bounds it.strict.nextText.1 p.statements it.strict.state) :=
    (it.lenient.executeAll_interrupted it.options.lenient_stricter bounds p).interruptedAt
  have hsame : Moment.firstMisfit? it.lenient.options bounds.turns [it.lenient.start bounds p] =
      Moment.firstDisputed? it.lenient.options it.options.strict bounds.turns
        [it.lenient.start bounds p] := Moment.firstMisfit?_eq_firstDisputed? _ _
  rw [← hsame] at hsecond
  generalize hfirst : Moment.firstMisfit? it.lenient.options bounds.turns
    [it.lenient.start bounds p] = first at hsecond ⊢
  generalize it.lenient.executeAll bounds it.lenient.nextText.1 p.statements
    it.lenient.state = o at hsecond ⊢
  generalize it.strict.executeAll bounds it.strict.nextText.1 p.statements
    it.strict.state = o' at hsecond ⊢
  cases hsecond with
  | unfinished => exact .unfinished
  | same => exact .same
  | @stopped m e st' _ herror _ hout _ =>
    obtain ⟨n, c, args, span, st, rfl, hmisfit⟩ :=
      Moment.exists_of_not_fits (Moment.firstMisfit?_eq_some hfirst).1
    rw [Moment.refusal?_of_not_fits hmisfit] at herror
    cases herror
    exact .stopped hout

/-- **Counting arguments only adds its own error.** Let a program come to an end where arguments are
not counted. If every call of a closure to which the run comes has as many arguments as there are
parameters, the program comes to the same end in the same state where they are counted. Otherwise
the moments of the run, in the order in which they come, have a first one at which a closure is
called with another number of arguments; there the program fails where arguments are counted, and
the lines printed are those that had been printed then. Neither a limit of calls nor the builtin
procedure makes a difference to this. -/
theorem strict_run_of_lenient (it it' : Interpreter) (bounds : Bounds) (p : Program)
    (r : Except RuntimeError Value) (h : it.lenient.run bounds p = some (r, it')) :
    ((∀ m, Moment.Visits it.lenient.options bounds.turns (it.lenient.start bounds p) m →
        m.task.fits) →
      it.strict.run bounds p = some (r, it'.strict)) ∧
    ((¬ ∀ m, Moment.Visits it.lenient.options bounds.turns (it.lenient.start bounds p) m →
        m.task.fits) →
      ∃ before n c args span st after,
        (it.lenient.start bounds p).timeline it.lenient.options bounds.turns =
          before ++ ⟨n, .call (.closure c) args span, st⟩ :: after ∧
        (∀ m ∈ before, m.task.fits) ∧ args.length ≠ c.decl.params.length ∧
        ∃ it'', it.strict.run bounds p = some (.error (.wrongArgumentCount c.decl.name
          c.decl.params.length args.length span), it'') ∧ it''.output = st.output.toList) := by
  have hchecked : Outcome.StoppedAt
      (Moment.firstMisfit? it.lenient.options bounds.turns [it.lenient.start bounds p])
      (it.lenient.executeAll bounds it.lenient.nextText.1 p.statements it.lenient.state)
      (it.strict.executeAll bounds it.strict.nextText.1 p.statements it.strict.state) :=
    it.executeAll_checked bounds p
  rw [Interpreter.run_apply] at h ⊢
  rw [← Moment.firstMisfit?_eq_none]
  generalize it.lenient.executeAll bounds it.lenient.nextText.1 p.statements
    it.lenient.state = o at h hchecked
  generalize it.strict.executeAll bounds it.strict.nextText.1 p.statements
    it.strict.state = o' at hchecked ⊢
  generalize hfirst : Moment.firstMisfit? it.lenient.options bounds.turns
    [it.lenient.start bounds p] = first at hchecked ⊢
  cases hchecked with
  | unfinished => contradiction
  | same =>
    refine ⟨fun _ => ?_, fun hmisfit => absurd rfl hmisfit⟩
    cases o with
    | done flow st =>
      cases h
      rfl
    | failed e st =>
      cases h
      rfl
    | unfinished => contradiction
  | stopped hout =>
    refine ⟨fun hnone => by contradiction, fun _ => ?_⟩
    obtain ⟨hmisfit, before, after, hrow, hbefore⟩ := Moment.firstMisfit?_eq_some hfirst
    exact ⟨before, _, _, _, _, _, after, hrow, hbefore, of_decide_eq_false hmisfit, _, rfl,
      congrArg Array.toList hout⟩

/-- A program that declares a procedure with **one parameter**, prints a line, and calls the
procedure with the given arguments. -/
def callWith (args : List Expr) : Program :=
  ⟨[.function "f" ["x"] (.mk [.print (.name "x" .none) .none] .none) .none,
    .print (.literal (.text "a") .none) .none,
    .expression (.call (.name "f" .none) args .none)]⟩

/-- With one argument the program runs as before; without arguments it stops at the call. -/
theorem strict_run_of_lenient_callWith :
    (∃ r it', (Interpreter.new {}).lenient.run ⟨0, 1⟩
        (callWith [.literal (.text "b") .none]) = some (r, it') ∧
      (Interpreter.new {}).strict.run ⟨0, 1⟩
        (callWith [.literal (.text "b") .none]) = some (r, it'.strict)) ∧
    ∃ r it', (Interpreter.new {}).lenient.run ⟨0, 1⟩ (callWith []) = some (r, it') ∧
      ∃ before n c args span st after,
        ((Interpreter.new {}).lenient.start ⟨0, 1⟩ (callWith [])).timeline
            (Interpreter.new {}).lenient.options 0 =
          before ++ ⟨n, .call (.closure c) args span, st⟩ :: after ∧
        (∀ m ∈ before, m.task.fits) ∧ args.length ≠ c.decl.params.length ∧
        ∃ it'', (Interpreter.new {}).strict.run ⟨0, 1⟩ (callWith []) =
          some (.error (.wrongArgumentCount c.decl.name c.decl.params.length args.length span),
            it'') ∧ it''.output = st.output.toList := by
  have hgood : ((Interpreter.new {}).strict.run ⟨0, 1⟩
      (callWith [.literal (.text "b") .none])).map (fun ran => ran.1.isOk) = some true := by
    rfl
  have hbad : ((Interpreter.new {}).strict.run ⟨0, 1⟩ (callWith [])).map
      (fun ran => ran.1.isOk) = some false := by
    rfl
  have hlenient : ((Interpreter.new {}).lenient.run ⟨0, 1⟩ (callWith [])).map
      (fun ran => ran.1.isOk) = some true := by
    rfl
  obtain ⟨⟨r, it'⟩, hrun, hok⟩ := Option.map_eq_some_iff.mp hlenient
  obtain ⟨r₁, it₁, hrun₁⟩ : ∃ r it', (Interpreter.new {}).lenient.run ⟨0, 1⟩
      (callWith [.literal (.text "b") .none]) = some (r, it') := ⟨_, _, rfl⟩
  refine ⟨⟨r₁, it₁, hrun₁, (strict_run_of_lenient _ _ _ _ _ hrun₁).1 ?_⟩, r, it', hrun,
    (strict_run_of_lenient _ _ _ _ _ hrun).2 fun hall => ?_⟩
  · -- otherwise the run with one argument would be stopped
    by_contra hmisfit
    obtain ⟨_, _, _, _, _, _, _, _, _, _, _, hstrict, _⟩ :=
      (strict_run_of_lenient _ _ _ _ _ hrun₁).2 hmisfit
    rw [hstrict] at hgood
    cases hgood
  · rw [(strict_run_of_lenient _ _ _ _ _ hrun).1 hall, Option.map_some, hok] at hbad
    cases hbad

end ScopeScript
