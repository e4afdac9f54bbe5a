import ScopeScript.Proofs.BuiltinName
import ScopeScript.Proofs.NoOuterMutation

/-!
# Names just bound

**A name that has just been bound can be read back**: in the same scope, the name for an expression
has the value that it was bound to (`ScopeScript.bound_readsBack`). This goes for variables and
procedures after their declarations, and for parameters before the body of the procedure, where of
several parameters with one name the last counts. The closure that comes back may have its scope put
together again; it is the same closure nonetheless.

The words `true` and `false` are the exception. They are names for the scanner, so that they can be
declared like any other, but an expression takes them for truth values, whatever they are bound to.
-/

namespace ScopeScript

/-! ### Look-ups after a binding -/

namespace Store

variable {s : Scope} {name other : String}

/-- A binding is **not seen under another name**. -/
theorem get?_define_of_ne (st : Store) (s₁ : Scope) (v : Value) (h : name ≠ other) :
    (st.define s₁ name v).get? s other = st.get? s other := by
  rw [get?, get?]
  induction s.chain with
  | nil => rfl
  | cons id outer ih =>
    have hframe : ((st.define s₁ name v).frame id).find? other = (st.frame id).find? other := by
      rw [frame_define]
      split
      · rw [Frame.find?_insert, if_neg h]
      · rfl
    rw [find?, find?, hframe, ih]

/-- Parameters are not seen under another name. -/
theorem get?_bindAll_of_not_mem (s₁ : Scope) (params : List String) :
    ∀ (args : List Value) (st : Store), name ∉ params →
      (st.bindAll s₁ params args).get? s name = st.get? s name := by
  induction params with
  | nil => exact fun _ _ _ => rfl
  | cons p ps ih =>
    intro args st hname
    obtain ⟨hp, hps⟩ := not_or.mp (mt List.mem_cons.mpr hname)
    cases args with
    | nil => exact (ih [] _ hps).trans (st.get?_define_of_ne s₁ _ (Ne.symm hp))
    | cons v vs => exact (ih vs _ hps).trans (st.get?_define_of_ne s₁ _ (Ne.symm hp))

/-- **A parameter is found with its argument**, or null if there is none, unless a later parameter
has the same name. -/
theorem get?_bindAll (params : List String) :
    ∀ (args : List Value) (st : Store) (i : Nat), s.frame < st.frames.size →
      params[i]? = some name → (∀ j, i < j → params[j]? ≠ some name) →
        (st.bindAll s params args).get? s name =
          some ((Binding.of s.frame (args[i]?.getD .null)).resolve s) := by
  induction params with
  | nil => exact fun _ _ _ _ hi => nomatch hi
  | cons p ps ih =>
    intro args st i hs hi hlast
    have hs' : ∀ v, s.frame < (st.define s p v).frames.size := fun v => by simpa using hs
    cases i with
    | zero =>
      obtain rfl : p = name := Option.some.inj hi
      have hps : p ∉ ps := fun hmem => by
        obtain ⟨j, hj⟩ := List.mem_iff_getElem?.mp hmem
        exact hlast (j + 1) (Nat.zero_lt_succ j) hj
      cases args with
      | nil => exact (get?_bindAll_of_not_mem s ps [] _ hps).trans (get?_define_self hs)
      | cons v vs => exact (get?_bindAll_of_not_mem s ps vs _ hps).trans (get?_define_self hs)
    | succ i =>
      have hlast' : ∀ j, i < j → ps[j]? ≠ some name := fun j hj =>
        hlast (j + 1) (Nat.succ_lt_succ hj)
      cases args with
      | nil => exact ih [] _ i (hs' .null) hi hlast'
      | cons v vs => exact ih vs _ i (hs' v) hi hlast'

end Store

/-- The same closure **equals itself** in the language. -/
theorem Value.Same.equal {v w : Value} (h : w.Same v) {c : Closure} (hc : v = .closure c) :
    w.equal v = true := by
  cases h with
  | refl =>
    subst hc
    exact Closure.same_iff.mpr ⟨rfl, rfl, rfl, rfl⟩
  | closure htext hdecl hframe =>
    exact Closure.same_iff.mpr ⟨htext, congrArg (·.name) hdecl, congrArg (·.body.span) hdecl, hframe⟩

/-- A text is read as **one expression** at most. -/
theorem Expr.Reads.unique {text : String} {e e' : Expr} (h : Expr.Reads text e)
    (h' : Expr.Reads text e') : e = e' := by
  obtain ⟨tokens, last, htokens, -, hread⟩ := h
  obtain ⟨tokens', last', htokens', -, hread'⟩ := h'
  have heq : tokens ++ [last] = tokens' ++ [last'] := Except.ok.inj (htokens.symm.trans htokens')
  rw [← heq, hread] at hread'
  exact Except.ok.inj (congrArg Prod.fst hread')

/-! ### When a name is bound -/

/-- **A name has just been bound** to a value in a scope: by a declaration, which has been run, or
for a call, the body of which is next. -/
inductive Moment.Binds (opts : Options) (turns : Nat) :
    Moment → String → Value → Scope → State → Prop
  /-- A variable without a first value. -/
  | plain {n site name span st flow st'}
    (h : execute opts (call opts turns n) turns site (.declare name none span) st =
      .done flow st') :
    Binds opts turns ⟨n, .statement site (.declare name none span), st⟩ name .null site.scope st'
  /-- A variable with its first value. -/
  | value {n site name e span st v st₁ flow st'}
    (he : evaluate (call opts turns n) site e st = .done v st₁)
    (h : execute opts (call opts turns n) turns site (.declare name (some e) span) st =
      .done flow st') :
    Binds opts turns ⟨n, .statement site (.declare name (some e) span), st⟩ name v site.scope st'
  /-- A procedure. -/
  | procedure {n site name params body span st flow st'}
    (h : execute opts (call opts turns n) turns site (.function name params body span) st =
      .done flow st') :
    Binds opts turns ⟨n, .statement site (.function name params body span), st⟩ name
      (.closure ⟨site.text, ⟨name, params, body⟩, site.scope⟩) site.scope st'
  /-- The last parameter of its name, in a call that is not refused. -/
  | parameter {n} {c : Closure} {args span st} {i : Nat} {name}
    (hrefusal : opts.refusal? c.decl args span st.depth = none)
    (hi : c.decl.params[i]? = some name) (hlast : ∀ j, i < j → c.decl.params[j]? ≠ some name) :
    Binds opts turns ⟨n + 1, .call (.closure c) args span, st⟩ name (args[i]?.getD .null)
      (st.store.enclose c.scope).1 (st.activate c args)

section Binds

variable {opts : Options} {turns : Nat} {m : Moment} {name : String} {v : Value} {scope : Scope}
  {st : State}

/-- **The value is found** under the name. -/
theorem Moment.Binds.get? (h : m.Binds opts turns name v scope st)
    (hm : m.task.Within m.state.store.frames.size) :
    ∃ w, st.store.get? scope name = some w ∧ w.Same v := by
  have hdefined : ∀ (st₀ : State) (v : Value), scope.frame < st₀.store.frames.size →
      ∃ w, (st₀.define scope name v).store.get? scope name = some w ∧ w.Same v := fun st₀ v hlt =>
    ⟨_, Store.get?_define_self hlt, Binding.resolve_of_same scope v⟩
  cases h with
  | @plain _ site _ _ st₀ _ _ h =>
    rw [execute_declare_none] at h
    cases h
    exact hdefined st₀ _ (hm _ List.mem_cons_self)
  | @value n site _ e _ st₀ v st₁ _ _ he h =>
    rw [execute_declare_some, he] at h
    cases h
    -- evaluating the first value has taken no frame away
    have hkept : (evaluate (call opts turns n) site e st₀).Leads (st₀.Kept none) :=
      evaluate_kept (call_keeps opts turns n) e st₀
    rw [he] at hkept
    exact hdefined st₁ _ (Nat.lt_of_lt_of_le (hm _ List.mem_cons_self) hkept.size_le)
  | @procedure _ site _ _ _ _ st₀ _ _ h =>
    rw [execute_function] at h
    cases h
    exact hdefined st₀ _ (hm _ List.mem_cons_self)
  | @parameter _ c args _ st₀ i _ _ hi hlast =>
    refine ⟨_, Store.get?_bindAll _ args _ i ?_ hi hlast, Binding.resolve_of_same _ _⟩
    simp

/-- What is bound in the code of texts that can be read **is a name**. -/
theorem Moment.Binds.isName {g : FrameId} (h : m.Binds opts turns name v scope st)
    (hm : (reserving g).Holds m) : IsName name := by
  have hstmt : ∀ {s : Stmt}, readable.Has (.stmt s) → name ∈ s.introduces → IsName name := by
    rintro s ⟨source, p, hp, hs⟩ hname
    exact hs.isName hp hname
  have htask := hm.task
  cases h with
  | plain | value | procedure => exact hstmt htask.2 List.mem_cons_self
  | parameter _ hi _ =>
    obtain ⟨-, span, hdecl⟩ := htask.1 _ rfl
    exact hstmt hdecl (List.mem_cons_of_mem _ (List.mem_of_getElem? hi))

end Binds

/-- An interpreter that has run texts **refers to frames that it has made**. -/
theorem Interpreter.HasRun.intact {opts : Options} {it : Interpreter} (h : it.HasRun opts) :
    it.state.store.Intact ∧ it.globals.Within it.state.store.frames.size := by
  induction h with
  | new => exact ⟨Store.intact_initial, Interpreter.new_globals_lt opts⟩
  | text _ hrun ih =>
    rcases Interpreter.runSource_cases hrun with rfl | ⟨p, r, -, hrun⟩
    · exact ih
    · exact ⟨(Interpreter.endsIn_of_run hrun).intact ih.1 ih.2,
        Interpreter.run_globals_lt hrun ih.2⟩
  | taken _ ih => exact ih

/-- **A name just bound is read back.** Whatever texts have been run before, when a text has bound a
name to a value, be it as a variable, a procedure or the last parameter of that name, then the name
is a text that is read as an expression. In the scope of the binding this expression has the value
to which the name was bound, unless the name is `true` or `false`; then it has that truth value. -/
theorem bound_readsBack {opts : Options} {it : Interpreter} (hit : it.HasRun opts) (bounds : Bounds)
    {source : String} {p : Program} (hp : Program.ofSource source = .ok p) {m : Moment}
    (hm : Moment.Visits it.options bounds.turns (it.start bounds p) m) {name : String} {v : Value}
    {scope : Scope} {st : State} (hbinds : m.Binds it.options bounds.turns name v scope st) :
    Expr.Reads name (.ofName name ⟨0, name.utf8ByteSize⟩) ∧
      ∀ call text span, ∃ w, evaluate call ⟨text, scope⟩ (.ofName name span) st = .done w st ∧
        (name = "true" → w = .boolean true) ∧ (name = "false" → w = .boolean false) ∧
        (name ≠ "true" → name ≠ "false" →
          w.Same v ∧ ∀ c, v = .closure c → w.equal v = true) := by
  obtain ⟨hglobals, hreserves⟩ := hit.reserves
  obtain ⟨hintact, hwithin⟩ := hit.intact
  have hholds := (hreserves.start hglobals hp bounds).visits hm
  obtain ⟨w, hget, hsame⟩ := hbinds.get? (hm.within hintact hwithin).2
  refine ⟨(hbinds.isName hholds).reads, fun call text span => ?_⟩
  rw [Expr.ofName]
  by_cases htrue : name = "true"
  · subst htrue
    rw [if_pos rfl, evaluate_literal]
    exact ⟨_, rfl, fun _ => rfl, fun h => absurd h (by decide), fun h => absurd rfl h⟩
  · by_cases hfalse : name = "false"
    · subst hfalse
      rw [if_neg htrue, if_pos rfl, evaluate_literal]
      exact ⟨_, rfl, fun h => absurd h htrue, fun _ => rfl, fun _ h => absurd rfl h⟩
    · rw [if_neg htrue, if_neg hfalse, evaluate_name, Eval.lookup, hget]
      exact ⟨w, rfl, fun h => absurd h htrue, fun h => absurd h hfalse,
        fun _ _ => ⟨hsame, fun c hc => hsame.equal hc⟩⟩

/-- A procedure with **two parameters of one name**, as the first text declares it. -/
def sameParameter : Closure :=
  ⟨0, ⟨"f", ["x", "x"], .mk [] ⟨15, 17⟩⟩, ⟨0, []⟩⟩

/-- The closure is called with itself for the second argument, and finds itself under the name. -/
theorem bound_readsBack_sameParameter :
    Interpreter.HasRun {} (Interpreter.new {}) ∧
      ∃ p m st, Program.ofSource "function f(x,x){}f('',f)" = .ok p ∧
        Moment.Visits {} 1 ((Interpreter.new {}).start ⟨1, 1⟩ p) m ∧
        m.Binds {} 1 "x" (.closure sameParameter) ⟨1, [0]⟩ st ∧
        Expr.Reads "x" (.name "x" ⟨0, 1⟩) ∧
        ∀ call text span, ∃ w, evaluate call ⟨text, ⟨1, [0]⟩⟩ (.name "x" span) st = .done w st ∧
          w.Same (.closure sameParameter) := by
  obtain ⟨tokens, hscanned, rfl⟩ : ∃ tokens,
      Scanned 0 ['f', 'u', 'n', 'c', 't', 'i', 'o', 'n', ' ', 'f', '(', 'x', ',', 'x', ')', '{',
        '}', 'f', '(', '\'', '\'', ',', 'f', ')'] tokens ∧
      tokens = [⟨.keyword .function, ⟨0, 8⟩⟩, ⟨.identifier "f", ⟨9, 10⟩⟩,
        ⟨.mark .leftParen, ⟨10, 11⟩⟩, ⟨.identifier "x", ⟨11, 12⟩⟩, ⟨.mark .comma, ⟨12, 13⟩⟩,
        ⟨.identifier "x", ⟨13, 14⟩⟩, ⟨.mark .rightParen, ⟨14, 15⟩⟩, ⟨.mark .leftBrace, ⟨15, 16⟩⟩,
        ⟨.mark .rightBrace, ⟨16, 17⟩⟩, ⟨.identifier "f", ⟨17, 18⟩⟩, ⟨.mark .leftParen, ⟨18, 19⟩⟩,
        ⟨.text "", ⟨19, 21⟩⟩, ⟨.mark .comma, ⟨21, 22⟩⟩, ⟨.identifier "f", ⟨22, 23⟩⟩,
        ⟨.mark .rightParen, ⟨23, 24⟩⟩, ⟨.endOfInput, ⟨24, 24⟩⟩] :=
    ⟨_, .token rfl <| .blank rfl <| .token rfl <| .token rfl <| .token rfl <| .token rfl <|
      .token rfl <| .token rfl <| .token rfl <| .token rfl <| .token rfl <| .token rfl <|
      .token rfl <| .token rfl <| .token rfl <| .token rfl .nil, rfl⟩
  have htokens : tokenize "function f(x,x){}f('',f)" = _ := tokenize_ofList_eq_ok_iff.mpr hscanned
  have hp : Program.ofSource "function f(x,x){}f('',f)" = .ok
      ⟨[.function "f" ["x", "x"] (.mk [] ⟨15, 17⟩) ⟨0, 17⟩,
        .expression (.call (.name "f" ⟨17, 18⟩) [.literal (.text "") ⟨19, 21⟩, .name "f" ⟨22, 23⟩]
          ⟨17, 24⟩)]⟩ := by
    rw [Program.ofSource, htokens]
    rfl
  have hvisits : Moment.Visits {} 1 ((Interpreter.new {}).start ⟨1, 1⟩
      ⟨[.function "f" ["x", "x"] (.mk [] ⟨15, 17⟩) ⟨0, 17⟩,
        .expression (.call (.name "f" ⟨17, 18⟩) [.literal (.text "") ⟨19, 21⟩, .name "f" ⟨22, 23⟩]
          ⟨17, 24⟩)]⟩)
      ⟨1, .call (.closure sameParameter) [.text "", .closure sameParameter] ⟨17, 24⟩,
        (Interpreter.new {}).state.define ⟨0, []⟩ "f" (.closure sameParameter)⟩ :=
    .tail (.tail (.tail (.tail .refl (.rest rfl)) .first) (.value rfl)) (.call rfl rfl)
  have hlast : ∀ j, 1 < j → sameParameter.decl.params[j]? ≠ some "x" := fun j hj => by
    rw [List.getElem?_eq_none hj]
    exact (Option.some_ne_none "x").symm
  have hbinds : Moment.Binds {} 1
      ⟨1, .call (.closure sameParameter) [.text "", .closure sameParameter] ⟨17, 24⟩,
        (Interpreter.new {}).state.define ⟨0, []⟩ "f" (.closure sameParameter)⟩
      "x" (.closure sameParameter) ⟨1, [0]⟩ _ := .parameter (i := 1) rfl rfl hlast
  obtain ⟨hreads, heval⟩ := bound_readsBack .new ⟨1, 1⟩ hp hvisits hbinds
  refine ⟨.new, _, _, _, hp, hvisits, hbinds, hreads, fun call text span => ?_⟩
  obtain ⟨w, hw, -, -, hsame⟩ := heval call text span
  exact ⟨w, hw, (hsame (by decide) (by decide)).1⟩

/-- What is declared as `true` **is not read back**. -/
theorem not_readsBack_true :
    ∃ p m st, Program.ofSource "declare true=''" = .ok p ∧
      Moment.Visits {} 1 ((Interpreter.new {}).start ⟨1, 1⟩ p) m ∧
      m.Binds {} 1 "true" (.text "") ⟨0, []⟩ st ∧
      ∀ e, Expr.Reads "true" e → ∀ call text, ∃ w,
        evaluate call ⟨text, ⟨0, []⟩⟩ e st = .done w st ∧ ¬ w.Same (.text "") := by
  obtain ⟨tokens, hscanned, rfl⟩ : ∃ tokens,
      Scanned 0 ['d', 'e', 'c', 'l', 'a', 'r', 'e', ' ', 't', 'r', 'u', 'e', '=', '\'', '\'']
        tokens ∧
      tokens = [⟨.keyword .declare, ⟨0, 7⟩⟩, ⟨.identifier "true", ⟨8, 12⟩⟩,
        ⟨.mark .assign, ⟨12, 13⟩⟩, ⟨.text "", ⟨13, 15⟩⟩, ⟨.endOfInput, ⟨15, 15⟩⟩] :=
    ⟨_, .token rfl <| .blank rfl <| .token rfl <| .token rfl <| .token rfl .nil, rfl⟩
  have htokens : tokenize "declare true=''" = _ := tokenize_ofList_eq_ok_iff.mpr hscanned
  have hp : Program.ofSource "declare true=''" = .ok
      ⟨[.declare "true" (some (.literal (.text "") ⟨13, 15⟩)) ⟨0, 15⟩]⟩ := by
    rw [Program.ofSource, htokens]
    rfl
  have htrue : IsName "true" :=
    Program.Has.isName hp (.statement List.mem_cons_self) List.mem_cons_self
  refine ⟨_, _, _, hp, .tail .refl .first, .value rfl rfl, fun e he call text => ?_⟩
  rw [he.unique htrue.reads, Expr.ofName, if_pos rfl, evaluate_literal]
  exact ⟨_, rfl, fun hsame => by cases hsame⟩

end ScopeScript
