import ScopeScript.Proofs.Footprint

/-!
# No outer mutation

A program can declare names but not assign to them, and a declaration binds its name in the scope
that it stands in. So nothing that runs inside a scope ever changes what the scopes around it bind,
nor what any other frame binds that was there before; a statement that fails, however deep inside
it the failure is, leaves no trace but lines of output. The account of what a step keeps is
`ScopeScript.State.Kept`; here it is read off for whole statements and for runs that fail
(`ScopeScript.no_outer_mutation`).

A frame may keep a closure without its scope, and the scope is put back when the name is looked up.
What is found is then the same closure, the same declaration in the same frame:
`ScopeScript.Value.Same`.
-/

namespace ScopeScript

/-! ### The same value -/

/-- **The same value**: closures are the same if they are the same declaration in the same frame. -/
inductive Value.Same : Value → Value → Prop where
  /-- A value is the same as itself. -/
  | refl (v : Value) : Same v v
  /-- A declaration in a frame makes one closure. -/
  | closure {c d : Closure} (text : c.text = d.text) (decl : c.decl = d.decl)
      (frame : c.scope.frame = d.scope.frame) : Same (.closure c) (.closure d)

/-- What a frame keeps of a value is enough to find **the same value** again. -/
theorem Binding.resolve_of_same (s : Scope) (v : Value) :
    ((Binding.of s.frame v).resolve s).Same v := by
  cases v with
  | closure c =>
    rw [Binding.of]
    split
    · next h => exact .closure rfl rfl h.symm
    · exact .refl _
  | _ => exact .refl _

/-! ### Names in a scope that is kept -/

/-- What keeps every frame keeps **what the names of a scope mean**. -/
theorem State.Kept.get?_eq {st st' : State} {s : Scope} (h : st.Kept none st')
    (hs : ∀ id ∈ s.chain, id < st.store.frames.size) (name : String) :
    st'.store.get? s name = st.store.get? s name :=
  Store.find?_congr fun id hid => h.frame_eq id (hs id hid) nofun

/-- A declaration binds **its name and no other**. -/
theorem State.Effect.declared {st st' : State} {env : Scope} {s : Stmt} {flow : Flow}
    {name : String} (henv : env.frame < st.store.frames.size) (h : st.Effect env s flow st')
    (hs : s.declared = some name) :
    (∀ other, other ≠ name →
      (st'.store.frame env.frame).find? other = (st.store.frame env.frame).find? other) ∧
    ∃ v w, flow = .normal v ∧ st'.store.get? env name = some w ∧ w.Same v := by
  rw [State.Effect, hs] at h
  obtain ⟨v, st₁, rfl, h₁, rfl⟩ := h
  have henv₁ : env.frame < st₁.store.frames.size := Nat.lt_of_lt_of_le henv h₁.size_le
  -- the declaration comes last, and until then the frame was kept
  refine ⟨fun other hne => ?_, v, _, rfl, Store.get?_define_self henv₁,
    Binding.resolve_of_same env v⟩
  rw [State.define, Store.frame_define_self henv₁, Frame.find?_insert, if_neg (Ne.symm hne),
    h₁.frame_eq env.frame henv (Option.some_ne_none _).symm]

/-! ### The statement that fails -/

section Failure

variable {opts : Options} {call : Caller} {turns : Nat} {site : Site}

/-- A list of statements that fails fails **at one of them**, and those before it have all come to
their end. -/
theorem executeAll_failed {e : RuntimeError} {st' : State} :
    ∀ (ss : List Stmt) (last : Value) (st : State),
      executeAll opts call turns site last ss st = .failed e st' →
      ∃ before s after v st₁, ss = before ++ s :: after ∧
        executeAll opts call turns site last before st = .done (.normal v) st₁ ∧
        execute opts call turns site s st₁ = .failed e st'
  | [], last, st, h => by
    rw [executeAll_nil] at h
    contradiction
  | s :: ss, last, st, h => by
    rw [executeAll_cons] at h
    rcases Outcome.andThen_eq_failed.mp h with hs | ⟨flow, st₁, hs, h⟩
    · exact ⟨[], s, ss, last, st, rfl, executeAll_nil last, hs⟩
    · cases flow with
      | exit v => contradiction
      | normal v =>
        -- it is one of the others that fails, and this one comes before it
        obtain ⟨before, t, after, w, st₂, rfl, hbefore, ht⟩ := executeAll_failed ss v st₁ h
        refine ⟨s :: before, t, after, w, st₂, rfl, ?_, ht⟩
        rw [executeAll_cons, hs]
        exact hbefore

end Failure

/-- A run that fails fails **at one of the statements** of the program. -/
theorem Interpreter.run_failed {it it' : Interpreter} {bounds : Bounds} {p : Program}
    {e : RuntimeError} (h : it.run bounds p = some (.error e, it')) :
    ∃ before s after v st₁, p.statements = before ++ s :: after ∧
      it.executeAll bounds it.nextText.1 before it.state = .done (.normal v) st₁ ∧
      it.execute bounds it.nextText.1 s st₁ = .failed e it'.state := by
  rw [Interpreter.run_apply] at h
  split at h
  · cases h
  · next hp =>
    cases h
    exact executeAll_failed p.statements .null it.state hp
  · contradiction

/-- A statement run by an interpreter has **the effect of its declaration**, if it is one. -/
theorem Interpreter.execute_effect (it : Interpreter) (bounds : Bounds) (site : Site) (s : Stmt)
    (st : State) :
    (it.execute bounds site s st).Ends (st.Effect site.scope s) fun _ => st.Kept none :=
  ScopeScript.execute_effect (call_keeps it.options bounds.turns bounds.calls) s site st

theorem Interpreter.executeAll_kept (it : Interpreter) (bounds : Bounds) (site : Site)
    (ss : List Stmt) (st : State) :
    (it.executeAll bounds site ss st).Leads (st.Kept (some site.scope.frame)) :=
  ScopeScript.executeAll_kept (call_keeps it.options bounds.turns bounds.calls) ss .null site st

/-! ### The frames of the global scope -/

/-- A run makes frames and takes none away, so **the frames of the global scope stay there**. -/
theorem Interpreter.run_globals_lt {it it' : Interpreter} {bounds : Bounds} {p : Program}
    {r : Except RuntimeError Value} (h : it.run bounds p = some (r, it'))
    (hglobals : ∀ id ∈ it.globals.chain, id < it.state.store.frames.size) :
    ∀ id ∈ it'.globals.chain, id < it'.state.store.frames.size := by
  have hkept := it.executeAll_kept bounds it.nextText.1 p.statements it.state
  rw [Interpreter.run_apply] at h
  intro id hid
  split at h
  · next hp =>
    rw [hp] at hkept
    cases h
    exact Nat.lt_of_lt_of_le (hglobals id hid) hkept.size_le
  · next hp =>
    rw [hp] at hkept
    cases h
    exact Nat.lt_of_lt_of_le (hglobals id hid) hkept.size_le
  · contradiction

/-- A new interpreter has made **the frame of its global scope**. -/
theorem Interpreter.new_globals_lt (opts : Options) :
    ∀ id ∈ (Interpreter.new opts).globals.chain,
      id < (Interpreter.new opts).state.store.frames.size := by
  intro id hid
  rw [List.mem_singleton.mp hid]
  exact Nat.zero_lt_one

/-! ### Statements, expressions and runs -/

/-- **Nothing that was there before is changed**, but for the one name that a declaration binds
where it stands. A statement that succeeds keeps every frame but its own, and keeps that one too
unless it is a declaration: then it binds the declared name to its value and no other name. A
statement that fails keeps every frame, and so does every expression, whether it fails or not. Lines
are only ever added to the output. Hence a run that fails at a statement leaves all global names as
the statements before it left them. -/
theorem no_outer_mutation (it : Interpreter) (bounds : Bounds) (site : Site)
    (henv : site.scope.frame < it.state.store.frames.size) :
    (∀ s, (it.execute bounds site s it.state).Ends
      (fun flow st' =>
        it.state.Kept (some site.scope.frame) st' ∧
        match s.declared with
        | none => it.state.Kept none st'
        | some name =>
          (∀ other, other ≠ name →
            (st'.store.frame site.scope.frame).find? other =
              (it.state.store.frame site.scope.frame).find? other) ∧
          ∃ v w, flow = .normal v ∧ st'.store.get? site.scope name = some w ∧ w.Same v)
      fun _ st' => it.state.Kept none st') ∧
    (∀ e, (evaluate (it.call bounds) site e it.state).Leads (it.state.Kept none)) ∧
    ∀ p e it', (∀ id ∈ it.globals.chain, id < it.state.store.frames.size) →
      it.run bounds p = some (.error e, it') →
      ∃ before s after v st₁, p.statements = before ++ s :: after ∧
        it.executeAll bounds it.nextText.1 before it.state = .done (.normal v) st₁ ∧
        it.execute bounds it.nextText.1 s st₁ = .failed e it'.state ∧
        st₁.Kept none it'.state ∧
        ∀ name, it'.state.store.get? it.globals name = st₁.store.get? it.globals name := by
  have hcall : (it.call bounds).Keeps := call_keeps it.options bounds.turns bounds.calls
  refine ⟨fun s => ?_, fun e => evaluate_kept hcall e it.state, fun p e it' hglobals hrun => ?_⟩
  · refine (it.execute_effect bounds site s it.state).imp ?_ fun _ _ h => h
    intro flow st' h
    refine ⟨h.kept, ?_⟩
    split
    · next hs => rwa [State.Effect, hs] at h
    · next name hs => exact h.declared henv hs
  · -- the statement that fails keeps every frame, so also those of the global scope
    obtain ⟨before, s, after, v, st₁, hp, hbefore, hs⟩ := Interpreter.run_failed hrun
    have hkept : st₁.Kept none it'.state := by
      have := it.execute_effect bounds it.nextText.1 s st₁
      rwa [hs] at this
    have hsize : it.state.store.frames.size ≤ st₁.store.frames.size := by
      have := it.executeAll_kept bounds it.nextText.1 before it.state
      rw [hbefore] at this
      exact this.size_le
    exact ⟨before, s, after, v, st₁, hp, hbefore, hs, hkept,
      hkept.get?_eq fun id hid => Nat.lt_of_lt_of_le (hglobals id hid) hsize⟩

/-- A declaration followed by a use of an unknown name: the declaration stays. -/
theorem no_outer_mutation_unknown_name :
    (Interpreter.new {}).globals.frame < (Interpreter.new {}).state.store.frames.size ∧
    ∃ it', (Interpreter.new {}).run ⟨1, 1⟩
        ⟨[.declare "x" none .none, .expression (.name "y" .none)]⟩ =
          some (.error (.unknownName "y" .none), it') ∧
      ∃ before s after v st₁,
        [.declare "x" none .none, .expression (.name "y" .none)] = before ++ s :: after ∧
        (Interpreter.new {}).executeAll ⟨1, 1⟩ (Interpreter.new {}).nextText.1 before
          (Interpreter.new {}).state = .done (.normal v) st₁ ∧
        (Interpreter.new {}).execute ⟨1, 1⟩ (Interpreter.new {}).nextText.1 s st₁ =
          .failed (.unknownName "y" .none) it'.state ∧
        st₁.Kept none it'.state ∧
        ∀ name, it'.state.store.get? (Interpreter.new {}).globals name =
          st₁.store.get? (Interpreter.new {}).globals name :=
  ⟨by decide, _, rfl, (no_outer_mutation (Interpreter.new {}) ⟨1, 1⟩
    (Interpreter.new {}).nextText.1 (by decide)).2.2 _ _ _ (Interpreter.new_globals_lt {}) rfl⟩

end ScopeScript
