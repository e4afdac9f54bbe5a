import ScopeScript.Proofs.Discipline
import ScopeScript.Proofs.Stops

/-!
# Where errors come from

**An error of a run is raised by an expression of the code that runs**: by a name for an unknown
name, by an operator for operands that do not fit, and by a call for anything that can go wrong with
a call; and it has the span of that expression. This also holds of errors in the body of a closure,
wherever the closure was carried.

The code that runs is described from outside (`ScopeScript.Code`): by its nodes, and by the blocks
that are the bodies of procedures. Of the state it is asked that all closures that the frames bind
have such bodies (`ScopeScript.Store.From`). This is a discipline that every run keeps
(`ScopeScript.Code.discipline`), whether it fails or not. A run that fails comes to a moment that
stops by itself, and what is about to be done then is code like all that the run comes to; or it is
to answer a call, which comes from a call expression (`ScopeScript.Moment.StopsHere.from_code`).
-/

namespace ScopeScript

/-! ### What is bound -/

/-- **All bindings** of all frames are as the predicate says. -/
def Store.Each (P : Binding → Prop) (st : Store) : Prop :=
  ∀ id, ∀ entry ∈ st.frame id, P entry.2

namespace Store.Each

variable {P : Binding → Prop} {st : Store}

/-- What is found **was bound** in a frame on the way. -/
theorem of_find? (h : st.Each P) {name : String} {v : Value} {ids : List FrameId}
    (hv : st.find? name ids = some v) :
    ∃ id outer b, id :: outer <:+ ids ∧ P b ∧ v = b.resolve ⟨id, outer⟩ := by
  obtain ⟨id, outer, b, hsuffix, -, hmem, rfl⟩ := Store.exists_binding_of_find? hv
  exact ⟨id, outer, b, hsuffix, h id _ hmem, rfl⟩

theorem define (h : st.Each P) {s : Scope} {v : Value} (hv : P (.of s.frame v)) (name : String) :
    (st.define s name v).Each P := by
  intro id entry hentry
  rw [frame_define] at hentry
  split at hentry
  · rcases Frame.mem_insert hentry with rfl | hentry
    · exact hv
    · exact h id entry hentry
  · exact h id entry hentry

theorem enclose (h : st.Each P) (s : Scope) : (st.enclose s).2.Each P := by
  intro id entry hentry
  rw [frame_enclose] at hentry
  exact h id entry hentry

theorem clear (h : st.Each P) (s : Scope) : (st.clear s).Each P := by
  intro id entry hentry
  rw [frame_clear] at hentry
  split at hentry
  · cases hentry
  · exact h id entry hentry

theorem bindAll (s : Scope) (params : List String) :
    ∀ {args : List Value} {st : Store}, st.Each P → P (.of s.frame .null) →
      (∀ a ∈ args, P (.of s.frame a)) → (st.bindAll s params args).Each P := by
  induction params with
  | nil => exact fun h _ _ => h
  | cons p ps ih =>
    intro args st h hnull hargs
    cases args with
    | nil => exact ih (h.define hnull p) hnull nofun
    | cons v vs =>
      obtain ⟨hv, hvs⟩ := List.forall_mem_cons.mp hargs
      exact ih (h.define hv p) hnull hvs

end Store.Each

/-! ### Code and what is made of it -/

/-- **Code that runs**: its nodes, and the bodies of the procedures that it declares. -/
structure Code where
  /-- The nodes of the code. -/
  Has : Node → Prop
  /-- The bodies of procedures. -/
  Body : Block → Prop
  /-- The nodes below a node of the code are in it. -/
  child : ∀ {node child}, Has node → child ∈ node.children → Has child
  /-- What the code declares has a body of a procedure. -/
  declares : ∀ {name params b span}, Has (.stmt (.function name params b span)) → Body b
  /-- The body of a procedure is in the code. -/
  body : ∀ {b}, Body b → Has (.block b)

/-- The value is **from the code**: if it is a closure, its body is one of the code. -/
def Value.From (code : Code) (v : Value) : Prop :=
  ∀ c, v = .closure c → code.Body c.decl.body

/-- The binding is from the code. -/
def Binding.From (code : Code) : Binding → Prop
  | .value v => v.From code
  | .own _ decl => code.Body decl.body

/-- **All closures that the frames bind are from the code.** -/
def Store.From (code : Code) (st : Store) : Prop :=
  ∀ id, ∀ entry ∈ st.frame id, entry.2.From code

/-- An error is **about an expression**: about the name that is unknown, the operator that does not
fit, or the call. -/
inductive RuntimeError.About : RuntimeError → Expr → Prop
  /-- An unknown name. -/
  | name {id span place} : About (.unknownName id place) (.name id span)
  /-- An operator between operands that do not fit. -/
  | binary {fault op l r span place} : About (.wrongOperands fault place) (.binary op l r span)
  /-- An operator before an operand that does not fit. -/
  | unary {fault op e span place} : About (.wrongOperands fault place) (.unary op e span)
  /-- A call of a value that is no procedure. -/
  | notCallable {shown f args span place} : About (.notCallable shown place) (.call f args span)
  /-- A call with the wrong number of arguments. -/
  | wrongArgumentCount {name expected found f args span place} :
    About (.wrongArgumentCount name expected found place) (.call f args span)
  /-- A call beyond the limit. -/
  | tooManyCalls {limit f args span place} : About (.tooManyCalls limit place) (.call f args span)

/-- The error is **raised by the code**: it is about an expression of the code, and has its span. -/
def RuntimeError.From (code : Code) (e : RuntimeError) : Prop :=
  ∃ ex, code.Has (.expr ex) ∧ ex.span = e.span ∧ e.About ex

section Stores

variable {code : Code} {st : Store}

theorem Value.from_null : Value.null.From code := by
  rintro c ⟨⟩

theorem Value.from_builtin : Value.builtin.From code := by
  rintro c ⟨⟩

theorem Binding.from_of {id : FrameId} {v : Value} (h : v.From code) :
    (Binding.of id v).From code := by
  cases v with
  | closure c =>
    rw [Binding.of]
    split
    · exact h c rfl
    · exact h
  | _ => exact h

theorem Binding.From.resolve {b : Binding} (h : b.From code) (found : Scope) :
    (b.resolve found).From code := by
  cases b with
  | value v => exact h
  | own text decl =>
    rintro c ⟨⟩
    exact h

namespace Store.From

/-- What is found in a store from the code **is from the code**. -/
theorem find? (h : st.From code) {name : String} {v : Value} {ids : List FrameId}
    (hv : st.find? name ids = some v) : v.From code := by
  obtain ⟨id, outer, b, -, hb, rfl⟩ := Each.of_find? h hv
  exact Binding.From.resolve hb _

theorem define (h : st.From code) {v : Value} (hv : v.From code) (s : Scope) (name : String) :
    (st.define s name v).From code :=
  Each.define h (Binding.from_of hv) name

theorem enclose (h : st.From code) (s : Scope) : (st.enclose s).2.From code :=
  Each.enclose h s

theorem bindAll (s : Scope) (params : List String) {args : List Value} {st : Store}
    (h : st.From code) (hargs : ∀ a ∈ args, a.From code) : (st.bindAll s params args).From code :=
  Each.bindAll s params h (Binding.from_of Value.from_null) fun a ha => Binding.from_of (hargs a ha)

/-- More code **has the closures of less**. -/
theorem mono {code' : Code} (h : st.From code) (hcode : ∀ b, code.Body b → code'.Body b) :
    st.From code' := by
  intro id entry hentry
  have hfrom := h id entry hentry
  rcases entry with ⟨name, v | ⟨text, decl⟩⟩
  · exact fun c hc => hcode _ (hfrom c hc)
  · exact hcode _ hfrom

end Store.From

end Stores

/-! ### The nodes of code -/

namespace Code

variable {code : Code}

/-- The expression with which a statement of the code starts is **of the code**. -/
theorem start {s : Stmt} {e : Expr} (h : code.Has (.stmt s)) (he : s.first? = some e) :
    code.Has (.expr e) := by
  refine code.child h ?_
  rcases s with _ | _ | _ | ⟨_, _, _ | _, _⟩ | _ | _ | _ | _ <;> cases he <;> simp [Node.children]

/-- The statements of a block of the code are of the code. -/
theorem statements {b : Block} (h : code.Has (.block b)) : ∀ s ∈ b.statements, code.Has (.stmt s) :=
  fun _ hs => code.child h (List.mem_map_of_mem hs)

theorem loopTest {test : Expr} {b : Block} {span : Span}
    (h : code.Has (.stmt (.loop test b span))) : code.Has (.expr test) :=
  code.child h (by simp [Node.children])

/-- What a statement of the code has in a scope of its own is of the code. -/
theorem opens {s : Stmt} {node : Node} (h : code.Has (.stmt s)) (hopens : s.Opens node) :
    code.Has node := by
  cases hopens with
  | block _ hb ht => exact statements (code.child h hb) _ ht
  | test => exact loopTest h

end Code

/-! ### Runs of code -/

/-- **Code runs, with closures that are from it.** This does not depend on the frames, so there is
nothing to be known of them. -/
def Code.discipline (code : Code) : Discipline where
  World := Unit
  Extends := Eq
  Runs _ _ node := code.Has node
  Fits _ c := code.Body c.decl.body
  Sound _ st := st.From code
  refl := Eq.refl
  trans := Eq.trans
  runs_mono _ h := h
  fits_mono _ h := h
  operand := code.child
  start := Code.start
  function := code.declares
  lookup _ hst hfound := hst.find? hfound _ rfl
  define _ _ hst hv := hst.define hv _ _
  enter {_ site _ _} hs hst := ⟨(), rfl, hst.enclose site.scope, fun _ => Code.opens hs⟩
  activate hc hst hargs :=
    ⟨(), rfl, .bindAll _ _ (hst.enclose _) hargs, fun _ ht => Code.statements (code.body hc) _ ht⟩
  clear _ _ hst _ := Store.Each.clear hst _

/-- A call that is refused is refused **at its own place**. -/
theorem Options.refusal?_about {opts : Options} {decl : FunctionDecl} {args : List Value}
    {span : Span} {depth : Nat} {e : RuntimeError}
    (h : opts.refusal? decl args span depth = some e) :
    span = e.span ∧ ∀ f args place, e.About (.call f args place) := by
  rw [Options.refusal?] at h
  split at h
  · cases h
    exact ⟨rfl, fun _ _ _ => .wrongArgumentCount⟩
  · split at h
    · split at h
      · cases h
        exact ⟨rfl, fun _ _ _ => .tooManyCalls⟩
      · cases h
    · cases h

/-- A run of code that fails **stops at an expression of the code**, which its error is about. -/
theorem Moment.StopsHere.from_code {code : Code} {it : Interpreter} {bounds : Bounds} {p : Program}
    (hstart : code.discipline.Holds () (it.start bounds p)) {m : Moment}
    (hm : Moment.Visits it.options bounds.turns (it.start bounds p) m) {e : RuntimeError}
    (h : m.StopsHere it.options (some e)) : e.From code := by
  obtain ⟨_, -, htask, -⟩ := hstart.visits hm
  cases h with
  | lookup => exact ⟨_, htask, rfl, .name⟩
  | binary => exact ⟨_, htask, rfl, .binary⟩
  | unary => exact ⟨_, htask, rfl, .unary⟩
  -- the task to answer a call does not have the expression, but the moment before it does
  | notCallable =>
    obtain ⟨site, f, es, st', hcall⟩ := hm.exists_call
    obtain ⟨_, -, htask, -⟩ := hstart.visits hcall
    exact ⟨_, htask, rfl, .notCallable⟩
  | refused hrefused =>
    obtain ⟨site, f, es, st', hcall⟩ := hm.exists_call
    obtain ⟨_, -, htask, -⟩ := hstart.visits hcall
    obtain ⟨hspan, habout⟩ := Options.refusal?_about hrefused
    exact ⟨_, htask, hspan, habout f es _⟩

/-! ### Programs -/

/-- **An interpreter that runs a program of the code** leaves a store from the code, and if it
fails, the error is raised by the code. -/
theorem Interpreter.run_runs {code : Code} {it it' : Interpreter} {bounds : Bounds} {p : Program}
    {r : Except RuntimeError Value} (hst : it.state.store.From code)
    (hp : ∀ s ∈ p.statements, code.Has (.stmt s)) (h : it.run bounds p = some (r, it')) :
    it'.state.store.From code ∧ ∀ e, r = .error e → e.From code := by
  have hstart : code.discipline.Holds () (it.start bounds p) := ⟨hp, hst⟩
  obtain ⟨_, -, hstore⟩ := hstart.run h
  refine ⟨hstore, ?_⟩
  rintro e rfl
  obtain ⟨m, hvisits, hm⟩ := (Interpreter.start_stops_of_error h).visits
  exact hm.from_code hstart hvisits

/-- A new interpreter knows **no closure**. -/
theorem Interpreter.from_new (code : Code) (opts : Options) :
    (Interpreter.new opts).state.store.From code := by
  have hempty : Store.empty.root.2.From code := by
    intro id entry hentry
    rw [Store.frame_root, Store.frame_of_size_le (Nat.zero_le id)] at hentry
    cases hentry
  exact hempty.define Value.from_builtin _ _

/-- The code of **one program**. -/
def Program.code (p : Program) : Code where
  Has := p.Has
  Body b := p.Has (.block b)
  child h hchild := .child h hchild
  declares h := .child h (List.mem_singleton_self _)
  body h := h

end ScopeScript
