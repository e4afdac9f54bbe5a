import ScopeScript.Proofs.Reachable

/-!
# A program in a block

A program runs in the global frame, next to the builtin procedure. Put between braces, the same
statements run in a frame of their own inside the global one, and that frame ends with the block.
This makes no difference: **the block prints the same lines and comes to the same value or the same
error** (`ScopeScript.run_inBlock`).

The two runs are compared frame by frame. What was the frame `id` is now the frame `id + 1`, and
behind the last frame of every scope there is one more, the global one, which binds the builtin
procedure and nothing else (`ScopeScript.Scope.Inner`). So the global frame of the first run has two
frames for its counterpart, and what is asked of stores that correspond is asked of look-ups, not
of frames (`ScopeScript.Store.Inner`).

That stores correspond in this sense says nothing of the order in which a frame binds its names,
and little of which frames can be reached from where. Both are only needed to tell which scopes are
let go of, and letting go of scopes is not seen (`ScopeScript.release`); so the two runs are
compared as runs that let go of nothing.
-/

namespace ScopeScript

/-- The program that has the statements of a program **in a block** and nothing else. -/
def Program.inBlock (p : Program) (span : Span) : Program :=
  ⟨[.block (.mk p.statements span)]⟩

/-! ### One frame further in -/

/-- Bindings that correspond: of values that do, or of the same declaration. -/
inductive Binding.Alike (R : Scope → Scope → Prop) : Binding → Binding → Prop where
  /-- Values that correspond. -/
  | value {v v' : Value} (h : v.Alike R v') : Alike R (.value v) (.value v')
  /-- A closure over the frame itself. -/
  | own (text : Nat) (decl : FunctionDecl) : Alike R (.own text decl) (.own text decl)

section Bindings

variable {R : Scope → Scope → Prop} {s s' : Scope}

/-- What is found in scopes that correspond **corresponds**. -/
theorem Binding.Alike.resolve {b b' : Binding} (h : b.Alike R b') (hs : R s s') :
    (b.resolve s).Alike R (b'.resolve s') := by
  cases h with
  | value h => exact h
  | own text decl => exact .closure text decl hs

/-- What frames keep of values that correspond **corresponds**. -/
theorem Binding.alike_of {v v' : Value} (h : v.Alike R v') {id id' : FrameId}
    (hid : ∀ t t', R t t' → (t.frame = id ↔ t'.frame = id')) :
    (Binding.of id v).Alike R (Binding.of id' v') := by
  cases h with
  | plain h =>
    cases v with
    | closure c => exact absurd rfl (h c)
    | _ => exact .value (.plain h)
  | @closure text decl t t' ht =>
    rw [Binding.of, Binding.of]
    by_cases heq : t.frame = id
    · rw [if_pos heq, if_pos ((hid t t' ht).mp heq)]
      exact .own text decl
    · rw [if_neg heq, if_neg (mt (hid t t' ht).mpr heq)]
      exact .value (.closure text decl ht)

end Bindings

/-- **The same scope one frame further in**: the frames of the first, which ends with the global
frame, are numbered one higher, and the global frame comes once more at the end. -/
def Scope.Inner (s s' : Scope) : Prop :=
  ∃ ids, 0 ∉ ids ∧ s.chain = ids ++ [0] ∧ s'.chain = ids.map (· + 1) ++ [1, 0]

namespace Scope.Inner

variable {s s' t t' : Scope}

theorem global : Scope.Inner ⟨0, []⟩ ⟨1, [0]⟩ :=
  ⟨[], List.not_mem_nil, rfl, rfl⟩

theorem frame_eq (h : s.Inner s') : s'.frame = s.frame + 1 := by
  obtain ⟨ids, -, hs, hs'⟩ := h
  rw [chain] at hs hs'
  cases ids with
  | nil => rw [(List.cons.inj hs).1, (List.cons.inj hs').1]
  | cons id ids => rw [(List.cons.inj hs).1, (List.cons.inj hs').1]

theorem frame_iff (hs : s.Inner s') (ht : t.Inner t') : s.frame = t.frame ↔ s'.frame = t'.frame := by
  rw [hs.frame_eq, ht.frame_eq]
  exact Nat.add_right_cancel_iff.symm

/-- A scope opened inside **is one frame further in** too. -/
theorem enclose (h : s.Inner s') {id : FrameId} (hid : 0 < id) :
    Scope.Inner ⟨id, s.chain⟩ ⟨id + 1, s'.chain⟩ := by
  obtain ⟨ids, hids, hs, hs'⟩ := h
  refine ⟨id :: ids, List.not_mem_cons_of_ne_of_not_mem (Nat.ne_of_lt hid) hids, ?_, ?_⟩
  · exact congrArg (List.cons id) hs
  · exact congrArg (List.cons (id + 1)) hs'

end Scope.Inner

/-! ### Stores with one frame more -/

namespace Store

/-- What a frame of the second run binds, **the global names included** if it is the frame of the
program. -/
def innerFind? (st : Store) (id : FrameId) (name : String) : Option Binding :=
  match (st.frame (id + 1)).find? name with
  | some b => some b
  | none => if id = 0 then (st.frame 0).find? name else none

/-- **What a frame binds, its counterpart binds**, and the outermost frame binds the builtin
procedure only. -/
structure Inner (st st' : Store) : Prop where
  /-- The global frame has been made. -/
  size_pos : 0 < st.frames.size
  /-- One frame comes before all others. -/
  size_eq : st'.frames.size = st.frames.size + 1
  /-- That frame binds the builtin procedure. -/
  outermost : st'.frame 0 = [(Keyword.print.spelling, .value .builtin)]
  /-- Bindings are found alike. -/
  find? (id : FrameId) (name : String) :
    Option.Rel (Binding.Alike Scope.Inner) ((st.frame id).find? name) (st'.innerFind? id name)

theorem innerFind?_of_ne (st : Store) {id : FrameId} (h : id ≠ 0) (name : String) :
    st.innerFind? id name = (st.frame (id + 1)).find? name := by
  rw [innerFind?, if_neg h]
  cases (st.frame (id + 1)).find? name <;> rfl

/-- The two frames for the global frame come **one after the other**. -/
theorem find?_inner_global {st : Store} (houter : st.frame 0 =
    [(Keyword.print.spelling, .value .builtin)]) (name : String) :
    st.find? name [1, 0] = (st.innerFind? 0 name).map (Binding.resolve ⟨1, [0]⟩) := by
  rw [Store.find?, innerFind?]
  cases (st.frame 1).find? name with
  | some b => rfl
  | none =>
    -- what is found behind is no closure, so the scope it is found in does not matter
    simp only [Store.find?, if_pos, houter, Frame.find?]
    by_cases hname : Keyword.print.spelling = name
    · simp only [if_pos hname]
      rfl
    · simp only [if_neg hname]
      rfl

namespace Inner

variable {st st' : Store}

theorem find?_chain (h : st.Inner st') (name : String) :
    ∀ ids : List FrameId, 0 ∉ ids →
      Option.Rel (Value.Alike Scope.Inner) (st.find? name (ids ++ [0]))
        (st'.find? name (ids.map (· + 1) ++ [1, 0]))
  | [], _ => by
    rw [List.nil_append, List.map_nil, List.nil_append, find?_inner_global h.outermost,
      Store.find?]
    have hfound := h.find? 0 name
    generalize (st.frame 0).find? name = r at hfound
    generalize st'.innerFind? 0 name = r' at hfound
    cases hfound with
    | none => exact .none
    | some hb => exact .some (hb.resolve .global)
  | id :: ids, hids => by
    have hid : id ≠ 0 := fun h => hids (h ▸ List.mem_cons_self)
    have hinner : Scope.Inner ⟨id, ids ++ [0]⟩ ⟨id + 1, ids.map (· + 1) ++ [1, 0]⟩ :=
      ⟨id :: ids, hids, rfl, rfl⟩
    have hrest := find?_chain h name ids fun hmem => hids (List.mem_cons_of_mem id hmem)
    have hfound := h.find? id name
    rw [innerFind?_of_ne st' hid] at hfound
    rw [List.map_cons, List.cons_append, List.cons_append, Store.find?, Store.find?]
    generalize (st.frame id).find? name = r at hfound
    generalize (st'.frame (id + 1)).find? name = r' at hfound
    cases hfound with
    | none => exact hrest
    | some hb => exact .some (hb.resolve hinner)

/-- Look-ups **find the same** one frame further in. -/
theorem get? (h : st.Inner st') {s s' : Scope} (hs : s.Inner s') (name : String) :
    Option.Rel (Value.Alike Scope.Inner) (st.get? s name) (st'.get? s' name) := by
  obtain ⟨ids, hids, hchain, hchain'⟩ := hs
  rw [Store.get?, Store.get?, hchain, hchain']
  exact h.find?_chain name ids hids

theorem define (h : st.Inner st') {s s' : Scope} (hs : s.Inner s') {v v' : Value}
    (hv : v.Alike Scope.Inner v') (name : String) :
    (st.define s name v).Inner (st'.define s' name v') where
  size_pos := by simpa using h.size_pos
  size_eq := by simpa using h.size_eq
  outermost := by
    rw [frame_define_of_ne, h.outermost]
    rw [hs.frame_eq]
    exact (Nat.succ_ne_zero _).symm
  find? id other := by
    have hof : (Binding.of s.frame v).Alike Scope.Inner (Binding.of s'.frame v') :=
      Binding.alike_of hv fun t t' ht => ht.frame_iff hs
    have hiff : (id + 1 = s'.frame ∧ s'.frame < st'.frames.size) ↔
        (id = s.frame ∧ s.frame < st.frames.size) := by
      rw [hs.frame_eq, h.size_eq, Nat.add_right_cancel_iff, Nat.add_lt_add_iff_right]
    have hglobal : (0 : FrameId) ≠ s'.frame := by
      rw [hs.frame_eq]
      exact (Nat.succ_ne_zero _).symm
    have hfound := h.find? id other
    rw [innerFind?, frame_define_of_ne hglobal]
    rw [innerFind?] at hfound
    simp only [frame_define, hiff]
    split
    · rw [Frame.find?_insert, Frame.find?_insert]
      split
      · exact .some hof
      · exact hfound
    · exact hfound

theorem enclose (h : st.Inner st') (s s' : Scope) : (st.enclose s).2.Inner (st'.enclose s').2 where
  size_pos := by simp
  size_eq := by simpa using h.size_eq
  outermost := (frame_enclose st' s' 0).trans h.outermost
  find? id name := by
    rw [innerFind?, frame_enclose, frame_enclose, frame_enclose, ← innerFind?]
    exact h.find? id name

end Inner

/-- **At first** the block has nothing in its frame. -/
theorem inner_initial :
    State.initial.2.store.Inner (State.initial.2.store.enclose State.initial.1).2 where
  size_pos := Nat.zero_lt_one
  size_eq := rfl
  outermost := rfl
  find? id name := by
    cases id with
    | zero =>
      have hfound : Option.Rel (Binding.Alike Scope.Inner)
          ((State.initial.2.store.frame 0).find? name)
          ((State.initial.2.store.frame 0).find? name) := by
        have hframe : State.initial.2.store.frame 0 =
          [(Keyword.print.spelling, .value .builtin)] := rfl
        rw [hframe, Frame.find?]
        split
        · exact .some (.value (.plain fun _ h => by cases h))
        · exact .none
      exact hfound
    | succ id => exact .none

end Store

/-! ### The two runs side by side -/

/-- **A program in the global scope, against the same in a block**, where no scope is let go of. -/
def blocked (opts : Options) : Simulation opts.keeping opts.keeping where
  World := Unit
  Extends _ _ := True
  Scopes _ := Scope.Inner
  Stores _ := Store.Inner
  Outputs lines lines' := lines = lines'
  strictArity_eq := opts.keeping.strictArity_self
  maxCallDepth_eq := opts.keeping.maxCallDepth_self
  refl _ := trivial
  trans _ _ := trivial
  scopes_mono _ hs := hs
  frame_iff := Scope.Inner.frame_iff
  lookup hs hst name := hst.get? hs name
  define hs hst hv name := hst.define hs hv name
  print := @push_congr
  scope {_ s s' st st'} hs hst := by
    refine ⟨(), trivial, hst.enclose s s', ?_, fun _ st₂ st₂' _ _ _ hst₂ _ _ hsurvivor =>
      ⟨(), trivial, hst₂, hsurvivor⟩⟩
    have hinner := hs.enclose hst.size_pos
    rwa [← hst.size_eq] at hinner

/-- A single statement is run **for itself**. -/
theorem executeAll_singleton {opts : Options} {call : Caller} {turns : Nat} {site : Site}
    (last : Value) (s : Stmt) (st : State) :
    executeAll opts call turns site last [s] st = execute opts call turns site s st := by
  rw [executeAll_cons]
  cases execute opts call turns site s st with
  | done flow st =>
    cases flow with
    | normal v =>
      simp only [Outcome.andThen, executeAll_nil]
    | exit v => rfl
  | failed e st => rfl
  | unfinished => rfl

/-- Where no scope is let go of, the **end of a scope** does nothing. -/
theorem ending_keeping (opts : Options) (s : Scope) (body : Eval Flow) (st : State) :
    Eval.ending opts.keeping s body st = body st := by
  rw [Eval.ending]
  cases body st <;> rfl

/-- What is told of a run from outside: **what came of it and the lines printed**. -/
def told (ran : Except RuntimeError Value × Interpreter) :
    Except RuntimeError Value × List String :=
  (ran.1, ran.2.output)

/-- **Letting go of scopes is not told.** -/
theorem run_keeping (opts : Options) (bounds : Bounds) (p : Program) :
    ((Interpreter.new opts).run bounds p).map told =
      ((Interpreter.new opts.keeping).run bounds p).map told := by
  have hmeet := Simulation.run_meet (release_new opts) bounds p
  generalize (Interpreter.new opts).run bounds p = o at hmeet
  generalize (Interpreter.new opts.keeping).run bounds p = o' at hmeet
  cases hmeet with
  | none => rfl
  | @some r r' h =>
    obtain ⟨live, -, hresult, hit⟩ := h
    have hsame : r.1 = r'.1 := (List.cons.inj (results_eq (.cons hresult .nil))).1
    exact congrArg some (Prod.ext hsame (congrArg Prod.fst (seen_eq hit)))

/-- **The statements of a program and the block of them have corresponding outcomes**, where no
scope is let go of. -/
theorem blocked_meet (opts : Options) (bounds : Bounds) (p : Program) (span : Span) :
    (blocked opts).Meet () (blocked opts).Flows
      ((Interpreter.new opts.keeping).executeAll bounds (Interpreter.new opts.keeping).nextText.1
        p.statements (Interpreter.new opts.keeping).state)
      ((Interpreter.new opts.keeping).executeAll bounds (Interpreter.new opts.keeping).nextText.1
        (p.inBlock span).statements (Interpreter.new opts.keeping).state) := by
  have hsites : (blocked opts).Sites () ⟨0, ⟨0, []⟩⟩ ⟨0, ⟨1, [0]⟩⟩ := ⟨rfl, .global⟩
  have hstates : (blocked opts).States () State.initial.2
      (State.initial.2.enter State.initial.1) := ⟨Store.inner_initial, rfl, rfl⟩
  have hoptions : (Interpreter.new opts.keeping).options = opts.keeping := rfl
  rw [Interpreter.executeAll, Interpreter.executeAll, Program.inBlock, executeAll_singleton,
    execute_block, executeBlock_mk, enclosed_apply, hoptions, ending_keeping]
  exact Simulation.executeAll_meet (call_keeps _ _ _) (call_keeps _ _ _)
    (Simulation.call_meet (blocked opts) _ _) p.statements .null hsites hstates

/-- **A program runs in a block as it does in the global scope.** In an interpreter just made, the
program whose only statement is a block with the statements of a program comes to an end if the
program does, within the same bounds. The same lines are printed, and the result is the same: the
same error, or the same value, but that a closure has its scope one frame further in. -/
theorem run_inBlock (opts : Options) (bounds : Bounds) (p : Program) (span : Span) :
    Option.Rel (fun r r' => (blocked opts).Results () r.1 r'.1 ∧ r.2 = r'.2)
      (((Interpreter.new opts).run bounds p).map told)
      (((Interpreter.new opts).run bounds (p.inBlock span)).map told) := by
  have hmeet := blocked_meet opts bounds p span
  rw [run_keeping opts bounds p, run_keeping opts bounds (p.inBlock span), Interpreter.run_apply,
    Interpreter.run_apply]
  generalize Interpreter.executeAll _ bounds _ p.statements _ = o at hmeet
  generalize Interpreter.executeAll _ bounds _ (p.inBlock span).statements _ = o' at hmeet
  cases hmeet with
  | done _ hst hflow => exact .some ⟨.ok hflow.value, congrArg Array.toList hst.outputs⟩
  | failed _ hst => exact .some ⟨.error _, congrArg Array.toList hst.outputs⟩
  | unfinished => exact .none

end ScopeScript
