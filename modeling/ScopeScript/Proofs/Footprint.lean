import ScopeScript.Proofs.Running

/-!
# What a run leaves as it was

A step of a run makes frames of its own and writes in them as it likes; the frames that were there
before it are another matter. This file shows how little of them is ever touched: **evaluating an
expression changes none of them, and a statement changes at most the frame it runs in**, at the one
name that it declares, and only if it succeeds.

The relation `ScopeScript.State.Kept` says which frames are the same before and after, that lines
are only added to the output, and that the calls in progress are as many as before. A scope that is
opened and ended inside a step has a number beyond the frames counted before it, so neither the
bindings made in it nor the clearing at its end are seen: that is `ScopeScript.State.Kept.of_enter`,
and everything else is composition.
-/

namespace ScopeScript

/-! ### Keeping the frames there are -/

/-- **All is kept but one frame, if any**: the frames that there were bind what they bound, the
output has only grown, and as many calls are in progress. -/
structure State.Kept (st : State) (but : Option FrameId) (st' : State) : Prop where
  /-- No frame has gone. -/
  size_le : st.store.frames.size ≤ st'.store.frames.size
  /-- The frames that there were are as they were, but for the one excepted. -/
  frame_eq : ∀ id < st.store.frames.size, but ≠ some id → st'.store.frame id = st.store.frame id
  /-- The lines printed before are the first lines now. -/
  output_prefix : st.output.toList <+: st'.output.toList
  /-- As many calls are in progress. -/
  depth_eq : st'.depth = st.depth

namespace State.Kept

variable {st st' st'' : State} {but : Option FrameId}

theorem refl (st : State) (but : Option FrameId) : st.Kept but st :=
  ⟨Nat.le_refl _, fun _ _ _ => rfl, List.prefix_refl _, rfl⟩

theorem trans (h : st.Kept but st') (h' : st'.Kept but st'') : st.Kept but st'' where
  size_le := Nat.le_trans h.size_le h'.size_le
  frame_eq id hid hne := by
    rw [h'.frame_eq id (Nat.lt_of_lt_of_le hid h.size_le) hne, h.frame_eq id hid hne]
  output_prefix := h.output_prefix.trans h'.output_prefix
  depth_eq := h'.depth_eq.trans h.depth_eq

/-- What keeps every frame keeps all of them but one. -/
theorem weaken (h : st.Kept none st') (but : Option FrameId) : st.Kept but st' :=
  ⟨h.size_le, fun id hid _ => h.frame_eq id hid nofun, h.output_prefix, h.depth_eq⟩

theorem define (st : State) (s : Scope) (name : String) (v : Value) :
    st.Kept (some s.frame) (st.define s name v) where
  size_le := by simp [State.define]
  frame_eq id _ hne := Store.frame_define_of_ne fun h => hne (h ▸ rfl)
  output_prefix := List.prefix_refl _
  depth_eq := rfl

theorem print (st : State) (line : String) : st.Kept none (st.print line) where
  size_le := Nat.le_refl _
  frame_eq _ _ _ := rfl
  output_prefix := by simp [State.print]
  depth_eq := rfl

theorem leave (st : State) (opts : Options) (s : Scope) (survivor : Option Value) :
    st.Kept (some s.frame) (st.leave opts s survivor) := by
  rw [State.leave]
  split
  · exact ⟨by simp, fun id _ hne => Store.frame_endScope_of_ne fun h => hne (h ▸ rfl),
      List.prefix_refl _, rfl⟩
  · exact refl st _

/-- **What happens in a scope of its own is not seen outside.** The frame of the scope comes after
the frames counted before it was opened. -/
theorem of_enter {s : Scope} (h : (st.enter s).Kept (some st.store.frames.size) st') :
    st.Kept none st' where
  size_le := Nat.le_trans (by simp [State.enter]) h.size_le
  frame_eq id hid _ := by
    -- the frame is older than the scope, so it is not the one excepted
    rw [h.frame_eq id (by simp [State.enter]; omega) (by simpa using Nat.ne_of_gt hid)]
    exact Store.frame_enclose st.store s id
  output_prefix := h.output_prefix
  depth_eq := h.depth_eq

end State.Kept

/-- **One step after another** keeps what each of them keeps. -/
theorem Outcome.Ends.andThen_kept {α β : Type} {st : State} {but : Option FrameId} {o : Outcome α}
    {f : α → State → Outcome β} (h : o.Leads (st.Kept but))
    (hf : ∀ a st₁, (f a st₁).Leads (st₁.Kept but)) : (o.andThen f).Leads (st.Kept but) := by
  refine .andThen (h.imp ?_ fun _ _ h => h)
  intro a st₁ h₁
  exact (hf a st₁).imp (fun _ _ h => h₁.trans h) fun _ _ h => h₁.trans h

theorem Outcome.Ends.weaken {α : Type} {st : State} {o : Outcome α} (h : o.Leads (st.Kept none))
    (but : Option FrameId) : o.Leads (st.Kept but) :=
  h.imp (fun _ _ h => h.weaken but) fun _ _ h => h.weaken but

/-! ### Scopes and loops -/

section Scopes

variable {opts : Options} {st : State}

/-- A body that writes in its own scope only, run in a new scope, **keeps every frame**. -/
theorem enclosed_kept {site : Site} {body : Site → Eval Flow}
    (h : ∀ inner st, (body inner st).Leads (st.Kept (some inner.scope.frame))) :
    (Eval.enclosed opts site body st).Leads (st.Kept none) := by
  have hbody := h ⟨site.text, (st.store.enclose site.scope).1⟩ (st.enter site.scope)
  rw [enclosed_apply, Eval.ending]
  generalize body _ (st.enter site.scope) = o at hbody
  -- the end of the scope writes in its own frame too, with a result and with an error
  cases o with
  | done flow st' => exact (hbody.trans (.leave st' opts _ _)).of_enter
  | failed e st' => exact (hbody.trans (.leave st' opts _ _)).of_enter
  | unfinished => trivial

/-- A loop keeps what **each of its turns** keeps. -/
theorem repeatWhile_kept {test : Eval Value} {body : Eval Flow} {but : Option FrameId}
    (htest : ∀ st, (test st).Leads (st.Kept none)) (hbody : ∀ st, (body st).Leads (st.Kept but)) :
    ∀ (turns : Nat) (st : State), (Eval.repeatWhile test body turns st).Leads (st.Kept but)
  | 0, _ => trivial
  | n + 1, st => by
    rw [repeatWhile_succ]
    refine ((htest st).weaken but).andThen_kept ?_
    intro v st₁
    split
    · refine (hbody st₁).andThen_kept ?_
      intro flow st₂
      cases flow with
      | exit v => exact .refl st₂ but
      | normal v => exact repeatWhile_kept htest hbody n st₂
    · exact .refl st₁ but

end Scopes

/-! ### Expressions -/

/-- Answering a call **keeps every frame**. -/
def Caller.Keeps (call : Caller) : Prop :=
  ∀ v args span st, (call v args span st).Leads (st.Kept none)

section Expressions

variable {call : Caller} {site : Site}

theorem lookup_kept (s : Scope) (name : String) (span : Span) (st : State) :
    (Eval.lookup s name span st).Leads (st.Kept none) := by
  rw [Eval.lookup]
  split
  · exact .refl st none
  · exact .refl st none

theorem ofOperator_kept (span : Span) (r : Except TypeFault Value) (st : State) :
    (Eval.ofOperator span r st).Leads (st.Kept none) := by
  cases r with
  | ok v => exact .refl st none
  | error fault => exact .refl st none

mutual

/-- **Evaluating an expression keeps every frame.** -/
theorem evaluate_kept (hcall : call.Keeps) :
    ∀ (e : Expr) (st : State), (evaluate call site e st).Leads (st.Kept none)
  | .literal v span, st => by
    rw [evaluate_literal]
    exact .refl st none
  | .name id span, st => by
    rw [evaluate_name]
    exact lookup_kept site.scope id span st
  | .binary op l r span, st => by
    rw [evaluate_binary]
    refine (evaluate_kept hcall l st).andThen_kept ?_
    intro a st₁
    refine (evaluate_kept hcall r st₁).andThen_kept ?_
    intro b st₂
    exact ofOperator_kept span _ st₂
  | .logical op l r span, st => by
    rw [evaluate_logical]
    refine (evaluate_kept hcall l st).andThen_kept ?_
    intro a st₁
    split
    · exact .refl st₁ none
    · exact evaluate_kept hcall r st₁
  | .unary op e span, st => by
    rw [evaluate_unary]
    refine (evaluate_kept hcall e st).andThen_kept ?_
    intro a st₁
    exact ofOperator_kept span _ st₁
  | .call f args span, st => by
    rw [evaluate_call]
    refine (evaluate_kept hcall f st).andThen_kept ?_
    intro callee st₁
    refine (evaluateAll_kept hcall args st₁).andThen_kept ?_
    intro values st₂
    exact hcall callee values span st₂

theorem evaluateAll_kept (hcall : call.Keeps) :
    ∀ (es : List Expr) (st : State), (evaluateAll call site es st).Leads (st.Kept none)
  | [], st => by
    rw [evaluateAll_nil]
    exact .refl st none
  | e :: es, st => by
    rw [evaluateAll_cons]
    refine (evaluate_kept hcall e st).andThen_kept ?_
    intro v st₁
    refine (evaluateAll_kept hcall es st₁).andThen_kept ?_
    intro vs st₂
    exact .refl st₂ none

end

end Expressions

/-! ### Statements -/

/-- The name that a statement **declares** in the scope it runs in, if it is a declaration. -/
def Stmt.declared : Stmt → Option String
  | .declare name _ _ => some name
  | .function name _ _ _ => some name
  | _ => none

/-- **What a statement may do when it succeeds**: a declaration binds its name to its value in the
frame it runs in, once all else is done; any other statement keeps every frame. -/
def State.Effect (st : State) (env : Scope) (s : Stmt) (flow : Flow) (st' : State) : Prop :=
  match s.declared with
  | none => st.Kept none st'
  | some name => ∃ v st₁, flow = .normal v ∧ st.Kept none st₁ ∧ st' = st₁.define env name v

/-- Whatever a statement declares, all frames are kept but the one it runs in. -/
theorem State.Effect.kept {st st' : State} {env : Scope} {s : Stmt} {flow : Flow}
    (h : st.Effect env s flow st') : st.Kept (some env.frame) st' := by
  rw [State.Effect] at h
  split at h
  · exact h.weaken _
  · obtain ⟨v, st₁, -, h₁, rfl⟩ := h
    exact (h₁.weaken _).trans (.define st₁ env _ v)

section Statements

variable {opts : Options} {call : Caller} {turns : Nat}

mutual

/-- **A statement that fails keeps every frame**, and one that succeeds has the effect of its
declaration, if it is one. -/
theorem execute_effect (hcall : call.Keeps) :
    ∀ (s : Stmt) (site : Site) (st : State),
      (execute opts call turns site s st).Ends (st.Effect site.scope s) fun _ => st.Kept none
  | .declare name none _, site, st => by
    rw [execute_declare_none]
    exact ⟨.null, st, rfl, .refl st none, rfl⟩
  | .declare name (some e) _, site, st => by
    rw [execute_declare_some]
    refine .andThen ((evaluate_kept hcall e st).imp ?_ fun _ _ h => h)
    intro v st₁ h₁
    exact ⟨v, st₁, rfl, h₁, rfl⟩
  | .print e _, site, st => by
    rw [execute_print]
    exact (evaluate_kept hcall e st).andThen_kept fun v st₁ => .print st₁ v.render
  | .block b, site, st => by
    rw [execute_block]
    exact executeBlock_kept hcall b site st
  | .conditional test b c _, site, st => by
    rw [execute_conditional]
    refine (evaluate_kept hcall test st).andThen_kept ?_
    intro v st₁
    split
    · exact executeBlock_kept hcall b site st₁
    · cases c with
      | none => exact .refl st₁ none
      | some c => exact executeBlock_kept hcall c site st₁
  | .loop test (.mk body _) _, site, st => by
    rw [execute_loop]
    refine enclosed_kept fun inner st₁ => ?_
    exact repeatWhile_kept (evaluate_kept hcall test)
      (executeAll_kept hcall body .null inner) turns st₁
  | .function name params body _, site, st => by
    rw [execute_function]
    exact ⟨_, st, rfl, .refl st none, rfl⟩
  | .exit e _, site, st => by
    rw [execute_exit]
    exact (evaluate_kept hcall e st).andThen_kept fun v st₁ => .refl st₁ none
  | .expression e, site, st => by
    rw [execute_expression]
    exact (evaluate_kept hcall e st).andThen_kept fun v st₁ => .refl st₁ none

/-- A block keeps every frame. -/
theorem executeBlock_kept (hcall : call.Keeps) :
    ∀ (b : Block) (site : Site) (st : State),
      (executeBlock opts call turns site b st).Leads (st.Kept none)
  | .mk ss _, site, st => by
    rw [executeBlock_mk]
    exact enclosed_kept fun inner st₁ => executeAll_kept hcall ss .null inner st₁

/-- A list of statements keeps all frames but the one it runs in. -/
theorem executeAll_kept (hcall : call.Keeps) :
    ∀ (ss : List Stmt) (last : Value) (site : Site) (st : State),
      (executeAll opts call turns site last ss st).Leads (st.Kept (some site.scope.frame))
  | [], last, site, st => by
    rw [executeAll_nil]
    exact .refl st _
  | s :: ss, last, site, st => by
    rw [executeAll_cons]
    -- whether it declares a name or not, the first writes in no other frame
    have hs : (execute opts call turns site s st).Leads (st.Kept (some site.scope.frame)) :=
      (execute_effect hcall s site st).imp (fun _ _ h => h.kept) fun _ _ h => h.weaken _
    refine hs.andThen_kept ?_
    intro flow st₁
    cases flow with
    | normal v => exact executeAll_kept hcall ss v site st₁
    | exit v => exact .refl st₁ _

end

end Statements

/-! ### Calls -/

section Calls

variable {opts : Options} {st : State}

theorem bindAll_kept (s : Scope) (params : List String) (args : List Value) (st : State) :
    st.Kept (some s.frame) { st with store := st.store.bindAll s params args } := by
  -- one declaration after another, all of them in the innermost frame
  induction params generalizing args st with
  | nil => exact .refl st _
  | cons p ps ih =>
    cases args with
    | nil => exact (State.Kept.define st s p .null).trans (ih [] _)
    | cons v vs => exact (State.Kept.define st s p v).trans (ih vs _)

/-- A call in progress is **one more and one less** at its end. -/
theorem State.Kept.of_call {st' : State} {but : Option FrameId}
    (h : State.Kept { st with depth := st.depth + 1 } but st') : st.Kept but st'.comeBack where
  size_le := h.size_le
  frame_eq := h.frame_eq
  output_prefix := h.output_prefix
  depth_eq := by simp [State.comeBack, h.depth_eq]

/-- From the opening of the scope of a call to its coming back, **only that scope is written
in**. -/
theorem State.Kept.of_activate {st' : State} {c : Closure} {args : List Value}
    (h : (st.activate c args).Kept (some st.store.frames.size) st') :
    (st.enter c.scope).Kept (some st.store.frames.size) st'.comeBack :=
  (bindAll_kept (st.store.enclose c.scope).1 c.decl.params args (st.enter c.scope)).trans
    (.of_call h)

/-- Bodies that **write in their own scope only**, however they are run. -/
def KeepBodies (runBody : Site → List Stmt → Eval Flow) : Prop :=
  ∀ site ss st, (runBody site ss st).Leads (st.Kept (some site.scope.frame))

variable {runBody : Site → List Stmt → Eval Flow}

theorem activation_kept (h : KeepBodies runBody) (c : Closure) (args : List Value) :
    (Eval.activation opts runBody c args st).Leads (st.Kept none) := by
  have hbody := h ⟨c.text, (st.store.enclose c.scope).1⟩ c.decl.body.statements
    (st.activate c args)
  rw [activation_apply]
  generalize runBody _ _ (st.activate c args) = o at hbody
  cases o with
  | done flow st' =>
    exact (hbody.of_activate.trans (.leave _ opts (st.store.enclose c.scope).1 _)).of_enter
  | failed e st' =>
    exact (hbody.of_activate.trans (.leave _ opts (st.store.enclose c.scope).1 _)).of_enter
  | unfinished => trivial

/-- Bodies that write in their own scope only make **calls that keep every frame**. -/
theorem answer_keeps (h : KeepBodies runBody) : (answer opts runBody).Keeps := by
  intro v args span st
  cases v with
  | builtin => exact .print st _
  | closure c =>
    rw [answer_closure]
    -- a call that is refused changes nothing
    split
    · exact .refl st none
    · exact activation_kept h c args
  | _ => exact .refl st none

/-- Bodies write in their own scope only, **however deeply calls may nest** in them. -/
theorem bodies_keep (opts : Options) (turns : Nat) : ∀ n, KeepBodies (bodies opts turns n)
  | 0 => fun _ _ _ => trivial
  | n + 1 => fun site ss st => by
    refine executeAll_kept ?_ ss .null site st
    rw [call_eq_answer]
    exact answer_keeps (bodies_keep opts turns n)

/-- **Calls keep every frame**, however deeply they may nest. -/
theorem call_keeps (opts : Options) (turns n : Nat) : (call opts turns n).Keeps := by
  rw [call_eq_answer]
  exact answer_keeps (bodies_keep opts turns n)

end Calls

end ScopeScript
