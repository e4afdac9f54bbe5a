import ScopeScript.Proofs.DeclaredNames
import ScopeScript.Proofs.Placement

/-!
# The name of the builtin procedure

The builtin procedure is bound in the global frame, under a reserved word. No text can declare a
reserved word, neither as a variable or a procedure nor as a parameter, so the binding is never
replaced, and no frame in between ever hides it; and a frame that is let go of is one that a block,
a loop or a call has opened. So **wherever code runs, the word stands for the builtin procedure**, in
the middle of calls and loops and after errors as well (`ScopeScript.builtin_kept`).

What is kept on the way is a property of stores (`ScopeScript.Store.Reserves`), and it comes as a
regime (`ScopeScript.reserving`): the scopes in which code runs end with the global frame, and the
closures there may be are declared in a text that was read.
-/

namespace ScopeScript

/-! ### What may be bound -/

/-- The **code of all texts** that can be read. -/
def readable : Code where
  Has node := ∃ source p, Program.ofSource source = .ok p ∧ p.Has node
  Body b := ∃ source p, Program.ofSource source = .ok p ∧ p.Has (.block b)
  child := by
    rintro node child ⟨source, p, hp, h⟩ hchild
    exact ⟨source, p, hp, .child h hchild⟩
  declares := by
    rintro name params b span ⟨source, p, hp, h⟩
    exact ⟨source, p, hp, .child h (List.mem_singleton_self _)⟩
  body h := h

/-- What such code introduces **is never a reserved word**. -/
theorem ne_spelling_of_readable {s : Stmt} (hs : readable.Has (.stmt s)) {name : String}
    (hname : name ∈ s.introduces) (k : Keyword) : name ≠ k.spelling := by
  obtain ⟨source, p, hp, hs⟩ := hs
  exact (Program.Has.isName hp hs hname).ne_keyword k

/-- Some text that can be read **declares the procedure**. -/
def FunctionDecl.Readable (decl : FunctionDecl) : Prop :=
  ∃ span, readable.Has (.stmt (.function decl.name decl.params decl.body span))

/-- The scope **ends with the global frame**, which does not come before. -/
def Scope.Rooted (globals : FrameId) (s : Scope) : Prop :=
  ∃ ids, globals ∉ ids ∧ s.chain = ids ++ [globals]

/-- The value is **one that texts can make**: if it is a closure, it has a scope that ends with the
global frame, and some text that can be read declares it. -/
def Value.Made (globals : FrameId) (v : Value) : Prop :=
  ∀ c, v = .closure c → c.scope.Rooted globals ∧ c.decl.Readable

/-- The binding is one that texts can make. -/
def Binding.Made (globals : FrameId) : Binding → Prop
  | .value v => v.Made globals
  | .own _ decl => decl.Readable

/-- The store **keeps the reserved words**: in the global frame the word for printing stands for the
builtin procedure, and no frame binds a reserved word otherwise. -/
structure Store.Reserves (globals : FrameId) (st : Store) : Prop where
  /-- The global frame has been made. -/
  made : globals < st.frames.size
  /-- The builtin procedure has its name. -/
  builtin : (st.frame globals).find? Keyword.print.spelling = some (.value .builtin)
  /-- There is no other binding of a reserved word. -/
  only {k : Keyword} {b : Binding} {id : FrameId} :
    (k.spelling, b) ∈ st.frame id → id = globals ∧ k = .print
  /-- What is bound are values that texts can make. -/
  bound : st.Each (Binding.Made globals)

section Scopes

variable {g : FrameId} {s : Scope}

/-- A scope with no frame around it **ends with its only frame**. -/
theorem Scope.Rooted.of_outer_nil (h : s.outer = []) : s.Rooted s.frame :=
  ⟨[], List.not_mem_nil, congrArg (List.cons s.frame) h⟩

theorem Scope.Rooted.enclose (h : s.Rooted g) {id : FrameId} (hid : g ≠ id) :
    Scope.Rooted g ⟨id, s.chain⟩ := by
  obtain ⟨ids, hids, hchain⟩ := h
  exact ⟨id :: ids, List.not_mem_cons_of_ne_of_not_mem hid hids, congrArg (List.cons id) hchain⟩

/-- The scope in which a name is found **ends where the look-up would**. -/
theorem Scope.Rooted.of_suffix (h : s.Rooted g) {id : FrameId} {outer : List FrameId}
    (hsuffix : id :: outer <:+ s.chain) : Scope.Rooted g ⟨id, outer⟩ := by
  obtain ⟨ids, hids, hchain⟩ := h
  obtain ⟨before, hbefore⟩ := hsuffix
  rw [hchain] at hbefore
  rcases List.append_eq_append_iff.mp hbefore with ⟨rest, rfl, hrest⟩ | ⟨rest, rfl, hrest⟩
  · exact ⟨rest, fun hmem => hids (List.mem_append_right before hmem), hrest⟩
  · cases rest with
    | nil => exact ⟨[], List.not_mem_nil, hrest.symm⟩
    | cons i rest => simp at hrest

end Scopes

/-! ### What keeps the reserved words -/

theorem Value.made_of_ne {g : FrameId} {v : Value} (h : ∀ c, v ≠ .closure c) : v.Made g :=
  fun c hc => absurd hc (h c)

theorem Value.made_null {g : FrameId} : Value.null.Made g :=
  Value.made_of_ne fun _ h => nomatch h

theorem Binding.made_of {g id : FrameId} {v : Value} (h : v.Made g) : (Binding.of id v).Made g := by
  cases v with
  | closure c =>
    rw [Binding.of]
    split
    · exact (h c rfl).2
    · exact h
  | _ => exact h

namespace Store.Reserves

variable {g : FrameId} {st st' : Store}

theorem define (h : st.Reserves g) {name : String} (hname : ∀ k : Keyword, name ≠ k.spelling)
    {v : Value} (hv : v.Made g) (s : Scope) : (st.define s name v).Reserves g where
  made := by simpa using h.made
  builtin := by
    rw [frame_define]
    split
    · rw [Frame.find?_insert, if_neg (hname .print)]
      exact h.builtin
    · exact h.builtin
  only {k b id} hmem := by
    rw [frame_define] at hmem
    split at hmem
    · rcases Frame.mem_insert hmem with heq | hmem
      · exact absurd (congrArg Prod.fst heq).symm (hname k)
      · exact h.only hmem
    · exact h.only hmem
  bound := h.bound.define (Binding.made_of hv) name

theorem enclose (h : st.Reserves g) (s : Scope) : (st.enclose s).2.Reserves g where
  made := by
    rw [size_enclose]
    exact Nat.lt_succ_of_lt h.made
  builtin := (congrArg (Frame.find? _) (frame_enclose st s g)).trans h.builtin
  only {k b id} hmem := h.only (frame_enclose st s id ▸ hmem)
  bound := h.bound.enclose s

theorem bindAll (s : Scope) (params : List String) :
    ∀ {args : List Value} {st : Store}, st.Reserves g →
      (∀ name ∈ params, ∀ k : Keyword, name ≠ k.spelling) → (∀ a ∈ args, a.Made g) →
        (st.bindAll s params args).Reserves g := by
  induction params with
  | nil => exact fun h _ _ => h
  | cons p ps ih =>
    intro args st h hparams hargs
    obtain ⟨hp, hps⟩ := List.forall_mem_cons.mp hparams
    cases args with
    | nil => exact ih (h.define hp Value.made_null s) hps hargs
    | cons v vs =>
      obtain ⟨hv, hvs⟩ := List.forall_mem_cons.mp hargs
      exact ih (h.define hp hv s) hps hvs

/-- A scope that was opened after the global one can be let go of. -/
theorem clear (h : st.Reserves g) (h' : st'.Reserves g) (s : Scope) :
    (st'.clear (st.enclose s).1).Reserves g := by
  have hne : g ≠ (st.enclose s).1.frame := Nat.ne_of_lt h.made
  refine ⟨by simpa using h'.made, ?_, fun {k b id} hmem => ?_, h'.bound.clear _⟩
  · rw [frame_clear, if_neg hne]
    exact h'.builtin
  · rw [frame_clear] at hmem
    split at hmem
    · cases hmem
    · exact h'.only hmem

/-- What a name stands for is **a value that texts can make**. -/
theorem made_of_get? (h : st.Reserves g) {s : Scope} (hs : s.Rooted g) {name : String} {v : Value}
    (hv : st.get? s name = some v) : v.Made g := by
  obtain ⟨id, outer, b, hsuffix, hbound, rfl⟩ := h.bound.of_find? hv
  cases b with
  | value v => exact hbound
  | own text decl =>
    rintro c ⟨⟩
    exact ⟨hs.of_suffix hsuffix, hbound⟩

/-- **The word for printing stands for the builtin procedure** in every scope that ends with the
global frame. -/
theorem get?_print (h : st.Reserves g) {s : Scope} (hs : s.Rooted g) :
    st.get? s Keyword.print.spelling = some .builtin := by
  obtain ⟨ids, hids, hchain⟩ := hs
  rw [get?, hchain]
  clear hchain
  induction ids with
  | nil => rw [List.nil_append, Store.find?, h.builtin]; rfl
  | cons id ids ih =>
    -- a frame before the global one does not bind the word
    have hnone : (st.frame id).find? Keyword.print.spelling = none := by
      cases hb : (st.frame id).find? Keyword.print.spelling with
      | none => rfl
      | some b =>
        have hid := (h.only (k := .print) (Frame.mem_of_find? hb)).1
        exact absurd (hid ▸ List.mem_cons_self) hids
    rw [List.cons_append, Store.find?, hnone]
    exact ih fun hmem => hids (List.mem_cons_of_mem id hmem)

/-- **At first** the global frame binds the builtin procedure, and nothing else is bound. -/
theorem eq_of_mem_initial {id : FrameId} {entry : String × Binding}
    (h : entry ∈ State.initial.2.store.frame id) :
    id = State.initial.1.frame ∧ entry = (Keyword.print.spelling, .value .builtin) := by
  have hframe : State.initial.2.store.frame 0 = [(Keyword.print.spelling, .value .builtin)] := rfl
  by_cases hid : id = 0
  · rw [hid, hframe, List.mem_singleton] at h
    exact ⟨hid, h⟩
  · rw [frame_of_size_le (Nat.one_le_iff_ne_zero.mpr hid)] at h
    cases h

theorem initial : State.initial.2.store.Reserves State.initial.1.frame where
  made := Nat.zero_lt_one
  builtin := rfl
  only hmem := by
    obtain ⟨hid, hentry⟩ := eq_of_mem_initial hmem
    have hspelling := congrArg (Keyword.ofSpelling? ∘ Prod.fst) hentry
    exact ⟨hid, by simpa [Keyword.ofSpelling?_spelling] using hspelling⟩
  bound id entry hmem := by
    rw [(eq_of_mem_initial hmem).2]
    exact Value.made_of_ne fun _ h => nomatch h

end Store.Reserves

/-! ### What runs do -/

/-- Code of texts that can be read, in scopes that end with the global frame. -/
def reserving (g : FrameId) : Regime .same where
  Runs site node := site.scope.Rooted g ∧ readable.Has node
  Fits c := c.scope.Rooted g ∧ c.decl.Readable
  Sound := Store.Reserves g
  operand h hchild := ⟨h.1, readable.child h.2 hchild⟩
  start h he := ⟨h.1, Code.start h.2 he⟩
  block h _ hb hst ht :=
    ⟨h.1.enclose (Nat.ne_of_lt hst.made), Code.statements (readable.child h.2 hb) _ ht⟩
  test h hst := ⟨h.1.enclose (Nat.ne_of_lt hst.made), Code.loopTest h.2⟩
  body h hst ht := by
    obtain ⟨hscope, span, hdecl⟩ := h
    exact ⟨hscope.enclose (Nat.ne_of_lt hst.made),
      Code.statements (readable.child hdecl (List.mem_singleton_self _)) _ ht⟩
  function h := ⟨h.1, _, h.2⟩
  lookup h hst hc := hst.made_of_get? h.1 hc _ rfl
  define h hname hst hv :=
    hst.define (ne_spelling_of_readable h.2 (Stmt.mem_introduces_of_declared hname)) hv _
  enclose := Store.Reserves.enclose
  bind h hst hargs := by
    obtain ⟨-, span, hdecl⟩ := h
    exact .bindAll _ _ (hst.enclose _)
      (fun name hname => ne_spelling_of_readable hdecl (List.mem_cons_of_mem _ hname)) hargs
  clear := Store.Reserves.clear
  apart _ _ htext hspan := ⟨htext, hspan⟩

/-- An interpreter that has **run some texts**, one after the other. -/
inductive Interpreter.HasRun (opts : Options) : Interpreter → Prop
  /-- It has run none yet. -/
  | new : HasRun opts (.new opts)
  /-- It has run one more. -/
  | text {it it' : Interpreter} {bounds : Bounds} {source : String} {r : Except Failure Value}
    (h : HasRun opts it) (hrun : it.runSource bounds source = some (r, it')) : HasRun opts it'
  /-- The lines printed have been taken away. -/
  | taken {it : Interpreter} (h : HasRun opts it) : HasRun opts it.takeOutput.2

/-- A text that has been run is **no program, or its program has been run**. -/
theorem Interpreter.runSource_cases {it it' : Interpreter} {bounds : Bounds} {source : String}
    {r : Except Failure Value} (h : it.runSource bounds source = some (r, it')) :
    it' = it ∨ ∃ p r', Program.ofSource source = .ok p ∧ it.run bounds p = some (r', it') := by
  rw [Interpreter.runSource] at h
  split at h
  · cases h
    exact .inl rfl
  · next p hp =>
    split at h
    · next v it₁ hrun =>
      cases h
      exact .inr ⟨p, _, hp, hrun⟩
    · next e it₁ hrun =>
      cases h
      exact .inr ⟨p, _, hp, hrun⟩
    · cases h

theorem Interpreter.run_globals {it it' : Interpreter} {bounds : Bounds} {p : Program}
    {r : Except RuntimeError Value} (h : it.run bounds p = some (r, it')) :
    it'.globals = it.globals := by
  rw [Interpreter.run_apply] at h
  split at h <;> cases h <;> rfl

/-- A text **starts in the global scope**. -/
theorem Store.Reserves.start {it : Interpreter} {source : String} {p : Program}
    (h : it.state.store.Reserves it.globals.frame) (hglobals : it.globals.outer = [])
    (hp : Program.ofSource source = .ok p) (bounds : Bounds) :
    (reserving it.globals.frame).Holds (it.start bounds p) := by
  exact ⟨fun s hs => ⟨.of_outer_nil hglobals, source, p, hp, .statement hs⟩, h⟩

/-- **Texts keep the reserved words.** -/
theorem Interpreter.HasRun.reserves {opts : Options} {it : Interpreter} (h : it.HasRun opts) :
    it.globals.outer = [] ∧ it.state.store.Reserves it.globals.frame := by
  induction h with
  | new => exact ⟨rfl, .initial⟩
  | text _ hrun ih =>
    rcases Interpreter.runSource_cases hrun with rfl | ⟨p, r, hp, hrun⟩
    · exact ih
    · rw [Interpreter.run_globals hrun]
      exact ⟨ih.1, (ih.2.start ih.1 hp _).run hrun⟩
  | taken _ ih => exact ih

/-- Where an expression or a statement **is about to run**. -/
def Task.site? : Task → Option Site
  | .expression site _ => some site
  | .statement site _ => some site
  | _ => none

/-- **Nothing hides or replaces the builtin procedure.** At every moment of a text that is run after
any others, the first one and those in calls and loops included, and whenever the work of such a
moment has ended, be it with an error, the word for printing is bound to the builtin procedure in
the global frame, and no frame has another binding of a reserved word. The word is read as a name,
and this name has the builtin procedure for its value in the scope in which code runs at that
moment, and in the global scope. -/
theorem builtin_kept {opts : Options} {it : Interpreter} (hit : it.HasRun opts) (bounds : Bounds)
    {source : String} {p : Program} (hp : Program.ofSource source = .ok p) {m : Moment}
    (hm : Moment.Visits it.options bounds.turns (it.start bounds p) m) {st : State}
    (hst : st = m.state ∨ m.EndsIn it.options bounds.turns st) :
    (st.store.frame it.globals.frame).find? Keyword.print.spelling = some (.value .builtin) ∧
      (∀ (k : Keyword) id b, (k.spelling, b) ∈ st.store.frame id →
        id = it.globals.frame ∧ k = .print) ∧
      Expr.Reads Keyword.print.spelling (.name Keyword.print.spelling ⟨0, 5⟩) ∧
      ∀ site, m.task.site? = some site ∨ site.scope = it.globals → ∀ call span,
        evaluate call site (.name Keyword.print.spelling span) st = .done .builtin st := by
  obtain ⟨hglobals, hreserves⟩ := hit.reserves
  have hholds := (hreserves.start hglobals hp bounds).visits hm
  have hkept : st.store.Reserves it.globals.frame := by
    rcases hst with rfl | hend
    · exact hholds.store
    · exact hholds.endsIn hend
  refine ⟨hkept.builtin, fun _ _ _ => hkept.only, Keyword.reads_print, ?_⟩
  intro site hsite call span
  have hscope : site.scope.Rooted it.globals.frame := by
    rcases hsite with hsite | hsite
    · have htask := hholds.task
      generalize m.task = task at hsite htask
      cases task <;> cases hsite <;> exact htask.1
    · rw [hsite]
      exact .of_outer_nil hglobals
  rw [evaluate_name, Eval.lookup, hkept.get?_print hscope]

/-- In a block of a text, after another text has failed. -/
theorem builtin_kept_afterFailure :
    Interpreter.HasRun {} { Interpreter.new {} with texts := 1 } ∧
      Program.ofSource "{-print}" = .ok
        ⟨[.block (.mk [.expression (.unary .negate (.name "print" ⟨2, 7⟩) ⟨1, 7⟩)] ⟨0, 8⟩)]⟩ ∧
      ∃ st, Moment.Visits {} 1
          (Interpreter.start { Interpreter.new {} with texts := 1 } ⟨1, 1⟩
            ⟨[.block (.mk [.expression (.unary .negate (.name "print" ⟨2, 7⟩) ⟨1, 7⟩)] ⟨0, 8⟩)]⟩)
          ⟨1, .expression ⟨1, ⟨1, [0]⟩⟩ (.name "print" ⟨2, 7⟩), st⟩ ∧
        (st.store.frame 0).find? Keyword.print.spelling = some (.value .builtin) ∧
        (∀ (k : Keyword) id b, (k.spelling, b) ∈ st.store.frame id → id = 0 ∧ k = .print) ∧
        ∀ call, evaluate call ⟨1, ⟨1, [0]⟩⟩ (.name "print" ⟨2, 7⟩) st = .done .builtin st := by
  obtain ⟨tokens, hscanned, rfl⟩ : ∃ tokens, Scanned 0 ['g'] tokens ∧
      tokens = [⟨.identifier "g", ⟨0, 1⟩⟩, ⟨.endOfInput, ⟨1, 1⟩⟩] := ⟨_, .token rfl .nil, rfl⟩
  obtain ⟨tokens', hscanned', rfl⟩ : ∃ tokens,
      Scanned 0 ['{', '-', 'p', 'r', 'i', 'n', 't', '}'] tokens ∧
      tokens = [⟨.mark .leftBrace, ⟨0, 1⟩⟩, ⟨.operator .minus, ⟨1, 2⟩⟩, ⟨.keyword .print, ⟨2, 7⟩⟩,
        ⟨.mark .rightBrace, ⟨7, 8⟩⟩, ⟨.endOfInput, ⟨8, 8⟩⟩] :=
    ⟨_, .token rfl <| .token rfl <| .token rfl <| .token rfl .nil, rfl⟩
  have htokens : tokenize "g" = _ := tokenize_ofList_eq_ok_iff.mpr hscanned
  have htokens' : tokenize "{-print}" = _ := tokenize_ofList_eq_ok_iff.mpr hscanned'
  have hrun : (Interpreter.new {}).runSource ⟨1, 1⟩ "g" =
      some (.error (.runtime (.unknownName "g" ⟨0, 1⟩)),
        { Interpreter.new {} with texts := 1 }) := by
    rw [Interpreter.runSource, Program.ofSource, htokens]
    rfl
  have hp : Program.ofSource "{-print}" = .ok
      ⟨[.block (.mk [.expression (.unary .negate (.name "print" ⟨2, 7⟩) ⟨1, 7⟩)] ⟨0, 8⟩)]⟩ := by
    rw [Program.ofSource, htokens']
    rfl
  have hit : Interpreter.HasRun {} { Interpreter.new {} with texts := 1 } := .text .new hrun
  have hvisits : Moment.Visits {} 1 (Interpreter.start { Interpreter.new {} with texts := 1 } ⟨1, 1⟩
      ⟨[.block (.mk [.expression (.unary .negate (.name "print" ⟨2, 7⟩) ⟨1, 7⟩)] ⟨0, 8⟩)]⟩)
      ⟨1, .expression ⟨1, ⟨1, [0]⟩⟩ (.name "print" ⟨2, 7⟩), _⟩ :=
    .tail (.tail (.tail (.tail (.tail .refl .first) .block) .first) (.value rfl)) (.operand rfl)
  obtain ⟨hbuiltin, honly, -, heval⟩ := builtin_kept hit ⟨1, 1⟩ hp hvisits (.inl rfl)
  exact ⟨hit, hp, _, hvisits, hbuiltin, honly, fun call => heval _ (.inl rfl) call _⟩

end ScopeScript
