import ScopeScript.Proofs.Reachability
import ScopeScript.Proofs.Simulation

/-!
# Declarations replaced by others

What a run keeps of the code that it runs is the declarations of closures, and stores do not look
into them: frames are made, written in, searched and let go of in the same way whatever the bodies
of procedures are. So where all declarations that a store holds are **replaced by others of the same
name and with the same parameters**, every operation does to the new store what it did to the old
one (`ScopeScript.Store.define_recoded`, `ScopeScript.Store.get?_recoded`,
`ScopeScript.Store.leave_recoded`).

What is done with values between these operations does not look into declarations either, but for
the comparison of closures.
-/

namespace ScopeScript

/-- **What becomes of declarations**, by the texts that they stand in. -/
structure Recoding where
  /-- The number of a text afterwards. -/
  text : Nat → Nat
  /-- A declaration of the text afterwards. -/
  decl : Nat → FunctionDecl → FunctionDecl
  /-- Procedures keep their names. -/
  name_eq (text : Nat) (d : FunctionDecl) : (decl text d).name = d.name
  /-- Procedures keep their parameters. -/
  params_eq (text : Nat) (d : FunctionDecl) : (decl text d).params = d.params

section Recoded

variable (ρ : Recoding)

/-- The closure with its declaration replaced, in the same scope. -/
def Closure.recoded (c : Closure) : Closure :=
  ⟨ρ.text c.text, ρ.decl c.text c.decl, c.scope⟩

/-- The value with its declaration replaced, if it is a closure. -/
def Value.recoded : Value → Value
  | .closure c => .closure (c.recoded ρ)
  | v => v

/-- The binding with its declaration replaced. -/
def Binding.recoded : Binding → Binding
  | .value v => .value (v.recoded ρ)
  | .own text decl => .own (ρ.text text) (ρ.decl text decl)

/-- The frame with all declarations replaced. -/
def Frame.recoded (f : Frame) : Frame :=
  f.map fun entry => (entry.1, entry.2.recoded ρ)

/-- The store with all declarations replaced. -/
def Store.recoded (st : Store) : Store :=
  ⟨st.frames.map (Frame.recoded ρ)⟩

/-- The state with all declarations replaced. -/
def State.recoded (st : State) : State :=
  { st with store := st.store.recoded ρ }

/-- The end of a statement with its declaration replaced. -/
def Flow.recoded : Flow → Flow
  | .normal v => .normal (v.recoded ρ)
  | .exit v => .exit (v.recoded ρ)

end Recoded

variable {ρ : Recoding}

/-! ### Values -/

/-- What makes two closures **the same**. -/
theorem Closure.same_iff {c d : Closure} :
    c.same d = true ↔ c.text = d.text ∧ c.decl.name = d.decl.name ∧
      c.decl.body.span = d.decl.body.span ∧ c.scope.frame = d.scope.frame := by
  simp [Closure.same, and_assoc]

/-- A value spelled out is **never a closure**. -/
theorem Literal.value_ne_closure (l : Literal) : ∀ c, l.value ≠ .closure c := by
  rintro c h
  cases l <;> cases h

@[simp] theorem Value.recoded_of_ne {v : Value} (h : ∀ c, v ≠ .closure c) : v.recoded ρ = v := by
  cases v with
  | closure c => exact absurd rfl (h c)
  | _ => rfl

@[simp] theorem Value.render_recoded (v : Value) : (v.recoded ρ).render = v.render := by
  cases v with
  | closure c => simp only [recoded, Closure.recoded, render, ρ.name_eq]
  | _ => rfl

@[simp] theorem Value.truthy_recoded (v : Value) : (v.recoded ρ).truthy = v.truthy := by
  cases v <;> rfl

theorem LogicalOp.decides_recoded (op : LogicalOp) (v : Value) :
    op.decides (v.recoded ρ) = op.decides v := by
  cases op <;> simp only [decides, Value.truthy_recoded]

theorem Flow.value_recoded (flow : Flow) : (flow.recoded ρ).value = flow.value.recoded ρ := by
  cases flow <;> rfl

theorem UnaryOp.apply_recoded (op : UnaryOp) (v : Value) : op.apply (v.recoded ρ) = op.apply v := by
  cases v with
  | closure c => cases op <;> rfl
  | _ => rfl

/-- Operators see of closures **only whether they are the same**. -/
theorem BinaryOp.apply_recoded {a b : Value}
    (h : ∀ c d, a = .closure c → b = .closure d → (c.recoded ρ).same (d.recoded ρ) = c.same d)
    (op : BinaryOp) : op.apply (a.recoded ρ) (b.recoded ρ) = op.apply a b := by
  have hrender : ∀ c : Closure, (Value.closure (c.recoded ρ)).render = (Value.closure c).render :=
    fun c => (Value.closure c).render_recoded
  cases a with
  | closure c =>
    cases b with
    | closure d =>
      have hsame := h c d rfl rfl
      cases op <;> first | rfl | simp only [Value.recoded, apply, Value.equal, hsame]
    | _ => cases op <;> first | rfl | simp only [Value.recoded, apply, sum, hrender]
  | _ =>
    cases b with
    | closure d => cases op <;> first | rfl | simp only [Value.recoded, apply, sum, hrender]
    | _ => rfl

/-! ### Bindings and frames -/

theorem Binding.resolve_recoded (b : Binding) (s : Scope) :
    (b.recoded ρ).resolve s = (b.resolve s).recoded ρ := by
  cases b <;> rfl

theorem Binding.of_recoded (id : FrameId) (v : Value) :
    Binding.of id (v.recoded ρ) = (Binding.of id v).recoded ρ := by
  cases v with
  | closure c =>
    have hscope : (c.recoded ρ).scope = c.scope := rfl
    rw [Value.recoded, Binding.of, Binding.of, hscope]
    split <;> rfl
  | _ => rfl

theorem Frame.find?_recoded (f : Frame) (name : String) :
    (f.recoded ρ).find? name = (f.find? name).map (Binding.recoded ρ) := by
  induction f with
  | nil => rfl
  | cons entry rest ih =>
    obtain ⟨n, b⟩ := entry
    change (if n = name then some (b.recoded ρ) else (Frame.recoded ρ rest).find? name) =
      (if n = name then some b else Frame.find? name rest).map (Binding.recoded ρ)
    split
    · rfl
    · exact ih

theorem Frame.insert_recoded (f : Frame) (name : String) (b : Binding) :
    (f.recoded ρ).insert name (b.recoded ρ) = (f.insert name b).recoded ρ := by
  induction f with
  | nil => rfl
  | cons entry rest ih =>
    obtain ⟨n, old⟩ := entry
    change (if n = name then (name, b.recoded ρ) :: Frame.recoded ρ rest
        else (n, old.recoded ρ) :: Frame.insert name (b.recoded ρ) (Frame.recoded ρ rest)) =
      Frame.recoded ρ (if n = name then (name, b) :: rest else (n, old) :: Frame.insert name b rest)
    split
    · rfl
    · rw [ih]
      rfl

/-! ### Stores -/

namespace Store

@[simp] theorem size_recoded (st : Store) : (st.recoded ρ).frames.size = st.frames.size := by
  simp [recoded]

theorem frame_recoded (st : Store) (id : FrameId) :
    (st.recoded ρ).frame id = (st.frame id).recoded ρ := by
  simp only [frame, recoded, Array.getElem?_map]
  cases st.frames[id]? <;> rfl

/-- Look-ups find **the same, with its declaration replaced**. -/
theorem find?_recoded (st : Store) (name : String) (ids : List FrameId) :
    (st.recoded ρ).find? name ids = (st.find? name ids).map (Value.recoded ρ) := by
  induction ids with
  | nil => rfl
  | cons id outer ih =>
    rw [find?, find?, frame_recoded, Frame.find?_recoded, ih]
    cases (st.frame id).find? name with
    | none => rfl
    | some b => exact congrArg some (b.resolve_recoded ⟨id, outer⟩)

theorem get?_recoded (st : Store) (s : Scope) (name : String) :
    (st.recoded ρ).get? s name = (st.get? s name).map (Value.recoded ρ) :=
  st.find?_recoded name s.chain

/-- What is done to **one frame** may be done before or after declarations are replaced. -/
theorem map_modify {frames : Array Frame} {id : FrameId} {g g' : Frame → Frame}
    (h : ∀ f, g' (f.recoded ρ) = (g f).recoded ρ) :
    (frames.map (Frame.recoded ρ)).modify id g' = (frames.modify id g).map (Frame.recoded ρ) := by
  refine Array.ext (by simp) fun i hi hi' => ?_
  rw [Array.getElem_modify, Array.getElem_map, Array.getElem_map, Array.getElem_modify]
  split
  · exact h _
  · rfl

theorem define_recoded (st : Store) (s : Scope) (name : String) (v : Value) :
    (st.recoded ρ).define s name (v.recoded ρ) = (st.define s name v).recoded ρ := by
  refine congrArg Store.mk (map_modify fun f => ?_)
  rw [Binding.of_recoded, Frame.insert_recoded]

theorem enclose_scope_recoded (st : Store) (s : Scope) :
    ((st.recoded ρ).enclose s).1 = (st.enclose s).1 := by
  rw [enclose, enclose, size_recoded]

theorem enclose_recoded (st : Store) (s : Scope) :
    ((st.recoded ρ).enclose s).2 = (st.enclose s).2.recoded ρ := by
  simp [enclose, recoded, Frame.recoded]

theorem clear_recoded (st : Store) (s : Scope) : (st.recoded ρ).clear s = (st.clear s).recoded ρ :=
  congrArg Store.mk (map_modify (g := fun _ => []) fun _ => rfl)

theorem bindAll_recoded (s : Scope) (params : List String) (args : List Value) (st : Store) :
    (st.recoded ρ).bindAll s params (args.map (Value.recoded ρ)) =
      (st.bindAll s params args).recoded ρ := by
  induction params generalizing args st with
  | nil => rfl
  | cons p ps ih =>
    cases args with
    | nil =>
      have hnull : (st.recoded ρ).define s p .null = (st.define s p .null).recoded ρ :=
        st.define_recoded s p .null
      rw [List.map_nil, bindAll, bindAll, hnull]
      exact ih [] _
    | cons v vs => rw [List.map_cons, bindAll, bindAll, define_recoded, ih]

theorem next_recoded (st : Store) (id : FrameId) : (st.recoded ρ).next id = st.next id := by
  have hbound : ∀ f : Frame, boundScopes (f.recoded ρ) = boundScopes f := by
    intro f
    rw [boundScopes, Frame.recoded, List.filterMap_map]
    refine List.filterMap_congr fun entry _ => ?_
    obtain ⟨name, b⟩ := entry
    cases b with
    | value v => cases v <;> rfl
    | own text decl => rfl
  rw [next, next, frame_recoded, hbound]

/-- A value reaches the frames **that it reached before**. -/
theorem reaches_recoded (st : Store) (v : Value) (target : FrameId) :
    (st.recoded ρ).reaches (v.recoded ρ) target = st.reaches v target := by
  cases v with
  | closure c =>
    have hpath : ∀ i, (st.recoded ρ).Path i target ↔ st.Path i target := by
      intro i
      simp only [Path, next_recoded]
    rw [Bool.eq_iff_iff, Value.recoded, reaches_closure_iff, reaches_closure_iff]
    simp only [hpath]
    rfl
  | _ => rfl

theorem leave_recoded (opts : Options) (st : Store) (s : Scope) (survivor : Option Value) :
    (st.recoded ρ).leave opts s (survivor.map (Value.recoded ρ)) =
      (st.leave opts s survivor).recoded ρ := by
  have hreaches : (survivor.map (Value.recoded ρ)).any (fun v => (st.recoded ρ).reaches v s.frame) =
      survivor.any fun v => st.reaches v s.frame := by
    cases survivor with
    | none => rfl
    | some v => exact st.reaches_recoded v s.frame
  rw [leave, leave, endScope, endScope, hreaches]
  split
  · split
    · rfl
    · exact st.clear_recoded s
  · rfl

end Store

/-! ### States -/

namespace State

theorem define_recoded (st : State) (s : Scope) (name : String) (v : Value) :
    (st.recoded ρ).define s name (v.recoded ρ) = (st.define s name v).recoded ρ :=
  congrArg (State.mk · st.output st.depth) (st.store.define_recoded s name v)

theorem print_recoded (st : State) (line : String) :
    (st.recoded ρ).print line = (st.print line).recoded ρ :=
  rfl

theorem enter_recoded (st : State) (s : Scope) :
    (st.recoded ρ).enter s = (st.enter s).recoded ρ :=
  congrArg (State.mk · st.output st.depth) (st.store.enclose_recoded s)

theorem activate_recoded (st : State) (c : Closure) (args : List Value) :
    (st.recoded ρ).activate (c.recoded ρ) (args.map (Value.recoded ρ)) =
      (st.activate c args).recoded ρ := by
  have hstore : (st.recoded ρ).store = st.store.recoded ρ := rfl
  have hscope : (c.recoded ρ).scope = c.scope := rfl
  have hparams : (c.recoded ρ).decl.params = c.decl.params := ρ.params_eq c.text c.decl
  rw [activate, hstore, hscope, hparams, Store.enclose_recoded, Store.enclose_scope_recoded,
    Store.bindAll_recoded]
  rfl

theorem leave_recoded (opts : Options) (st : State) (s : Scope) (survivor : Option Value) :
    (st.recoded ρ).leave opts s (survivor.map (Value.recoded ρ)) =
      (st.leave opts s survivor).recoded ρ := by
  rw [State.leave_eq, State.leave_eq]
  exact congrArg (State.mk · st.output st.depth) (st.store.leave_recoded opts s survivor)

end State

end ScopeScript
