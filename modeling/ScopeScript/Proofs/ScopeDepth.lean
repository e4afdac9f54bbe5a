import ScopeScript.Proofs.Discipline
import ScopeScript.Proofs.EnclosingBlocks
import ScopeScript.Proofs.JoinedRuns

/-!
# Scopes are as deep as blocks are nested

**The frames of a scope mirror the blocks of the source.** Wherever an expression or a statement is
run, its scope has the global frame and one frame for each block around it in its text, however many
calls are in progress and however many turns the loops around it have taken
(`ScopeScript.chain_length_eq_enclosing_blocks`). As the parser limits how deeply blocks nest, no
look-up ever walks through more than 257 frames.

A call does not open its scope in that of the caller, but in the scope in which the procedure was
declared, and it may come long after that scope was left. So of each frame ever made we remember its
**level**, the number of frames around it. A closure has been declared at the level of its frame,
and a frame keeps a closure over itself without its scope, but its own level says where that closure
was declared. This is a `ScopeScript.Discipline` whose worlds are the levels of the frames.
-/

namespace ScopeScript

/-- What a list has at a place, **a longer one has there too**. -/
theorem getElem?_of_prefix {α : Type} {front all : List α} (h : front <+: all) {i : Nat} {a : α}
    (hi : front[i]? = some a) : all[i]? = some a := by
  obtain ⟨hlt, rfl⟩ := List.getElem?_eq_some_iff.mp hi
  exact List.prefix_iff_getElem?.mp h i hlt

/-! ### Where code stands -/

/-- The node stands in the text of the number, **with so many blocks around it**. -/
def StandsAt (texts : List String) (text k : Nat) (node : Node) : Prop :=
  ∃ source p, texts[text]? = some source ∧ Program.ofSource source = .ok p ∧ p.HasAt k node

/-- The text of the number **declares the procedure**, with so many blocks around. -/
def DeclaredAt (texts : List String) (text k : Nat) (decl : FunctionDecl) : Prop :=
  ∃ span, StandsAt texts text k (.stmt (.function decl.name decl.params decl.body span))

section Standing

variable {texts texts' : List String} {text k : Nat} {node : Node} {s : Stmt}

theorem StandsAt.mono (htexts : texts <+: texts') (h : StandsAt texts text k node) :
    StandsAt texts' text k node := by
  obtain ⟨source, p, hsource, hp, hat⟩ := h
  exact ⟨source, p, getElem?_of_prefix htexts hsource, hp, hat⟩

theorem StandsAt.child {child : Node} (h : StandsAt texts text k node)
    (hchild : child ∈ node.children) : StandsAt texts text (k + node.blocksTo child) child := by
  obtain ⟨source, p, hsource, hp, hat⟩ := h
  exact ⟨source, p, hsource, hp, hat.child hchild⟩

/-- A statement of a block is **one block further in** than the block. -/
theorem StandsAt.inBlock {b : Block} {t : Stmt} (h : StandsAt texts text k (.block b))
    (ht : t ∈ b.statements) : StandsAt texts text (k + 1) (.stmt t) := by
  have hchild : Node.stmt t ∈ (Node.block b).children := List.mem_map_of_mem ht
  exact h.child hchild

/-- The expression with which a statement starts has **as many blocks around it** as the statement;
a loop starts with none. -/
theorem StandsAt.start {e : Expr} (h : StandsAt texts text k (.stmt s)) (hs : s.first? = some e) :
    StandsAt texts text k (.expr e) := by
  have hchild : Node.expr e ∈ (Node.stmt s).children := by
    cases s with
    | conditional test b c span =>
      cases hs
      cases c <;> exact List.mem_cons_self ..
    | _ => cases hs <;> exact List.mem_cons_self ..
  have hzero : (Node.stmt s).blocksTo (.expr e) = 0 := by
    cases s <;> first | rfl | cases hs
  have hstands := h.child hchild
  rwa [hzero] at hstands

/-- What a statement runs in a scope that it opens is **one block further in**. -/
theorem StandsAt.opens (h : StandsAt texts text k (.stmt s)) (hs : s.Opens node) :
    StandsAt texts text (k + 1) node := by
  cases hs with
  | @block _ b t _ hb ht =>
    have hzero : (Node.stmt s).blocksTo (.block b) = 0 := by cases s <;> rfl
    have hblock := h.child hb
    rw [hzero] at hblock
    exact hblock.inBlock ht
  | test => exact h.child (List.mem_cons_self ..)

/-- So is what stands in the body of a procedure. -/
theorem DeclaredAt.body {decl : FunctionDecl} {t : Stmt} (h : DeclaredAt texts text k decl)
    (ht : t ∈ decl.body.statements) : StandsAt texts text (k + 1) (.stmt t) := by
  obtain ⟨span, h⟩ := h
  have hblock : StandsAt texts text k (.block decl.body) := h.child (List.mem_cons_self ..)
  exact hblock.inBlock ht

end Standing

/-! ### Levels of frames -/

/-- The **levels** are right about frames one around the other: each of them has as many around it
as its level says. -/
def Levelled (levels : List Nat) (ids : List FrameId) : Prop :=
  ∀ id rest, id :: rest <:+ ids → levels[id]? = some rest.length

/-- The closure was **declared where its scope is**. -/
structure Closure.Mirrors (texts : List String) (levels : List Nat) (c : Closure) : Prop where
  /-- The levels are right about its scope. -/
  scope : Levelled levels c.scope.chain
  /-- As many blocks are around its declaration as frames are around its frame. -/
  declared : DeclaredAt texts c.text c.scope.outer.length c.decl

/-- The binding in a frame **mirrors the source**: a closure kept without its scope was declared at
the level of the frame. -/
def Binding.Mirrors (texts : List String) (levels : List Nat) (id : FrameId) : Binding → Prop
  | .value v => ∀ c, v = .closure c → c.Mirrors texts levels
  | .own text decl => ∃ k, levels[id]? = some k ∧ DeclaredAt texts text k decl

/-- The store **mirrors the source**: each frame has a level, and all bindings fit theirs. -/
structure Store.Mirrors (texts : List String) (levels : List Nat) (st : Store) : Prop where
  /-- Each frame has a level. -/
  length_eq : levels.length = st.frames.size
  /-- All bindings mirror the source. -/
  bindings : ∀ id, ∀ entry ∈ st.frame id, entry.2.Mirrors texts levels id

section Levels

variable {texts texts' : List String} {levels levels' : List Nat} {st : Store} {s : Scope}

theorem Levelled.mono {ids : List FrameId} (h : levels <+: levels') (hids : Levelled levels ids) :
    Levelled levels' ids :=
  fun id rest hid => getElem?_of_prefix h (hids id rest hid)

/-- A new frame has **as many around it as there are**. -/
theorem Levelled.push {ids : List FrameId} (hids : Levelled levels ids) :
    Levelled (levels ++ [ids.length]) (levels.length :: ids) := by
  intro id rest hid
  rcases List.suffix_cons_iff.mp hid with heq | hid
  · obtain ⟨rfl, rfl⟩ := List.cons.inj heq
    exact List.getElem?_concat_length
  · exact hids.mono (List.prefix_append ..) id rest hid

theorem Closure.Mirrors.mono {c : Closure} (htexts : texts <+: texts') (h : levels <+: levels')
    (hc : c.Mirrors texts levels) : c.Mirrors texts' levels' := by
  obtain ⟨hscope, span, hdeclared⟩ := hc
  exact ⟨hscope.mono h, span, hdeclared.mono htexts⟩

theorem Binding.Mirrors.mono {id : FrameId} {b : Binding} (htexts : texts <+: texts')
    (h : levels <+: levels') (hb : b.Mirrors texts levels id) : b.Mirrors texts' levels' id := by
  cases b with
  | value v => exact fun c hc => (hb c hc).mono htexts h
  | own text decl =>
    obtain ⟨k, hk, span, hdeclared⟩ := hb
    exact ⟨k, getElem?_of_prefix h hk, span, hdeclared.mono htexts⟩

namespace Store.Mirrors

/-- What stands in some texts stands in more. -/
theorem mono (htexts : texts <+: texts') (h : st.Mirrors texts levels) :
    st.Mirrors texts' levels :=
  ⟨h.length_eq, fun id entry hentry => (h.bindings id entry hentry).mono htexts List.prefix_rfl⟩

/-- A closure that a scope finds was **declared where its scope is**. -/
theorem find? (h : st.Mirrors texts levels) {name : String} {c : Closure} {ids : List FrameId}
    (hids : Levelled levels ids) (hfound : st.find? name ids = some (.closure c)) :
    c.Mirrors texts levels := by
  obtain ⟨id, rest, b, hsuffix, -, hmem, hb⟩ := Store.exists_binding_of_find? hfound
  have hmirrors := h.bindings id _ hmem
  cases b with
  | value v => exact hmirrors c hb.symm
  | own text decl =>
    cases hb
    obtain ⟨k, hk, hdeclared⟩ := hmirrors
    -- the scope in which it is found has the level of the frame
    obtain rfl : rest.length = k := Option.some.inj ((hids id rest hsuffix).symm.trans hk)
    exact ⟨fun i r hi => hids i r (hi.trans hsuffix), hdeclared⟩

theorem define (h : st.Mirrors texts levels) {v : Value}
    (hv : ∀ c, v = .closure c → c.Mirrors texts levels) (s : Scope) (name : String) :
    (st.define s name v).Mirrors texts levels := by
  refine ⟨h.length_eq.trans (by simp), fun id entry hentry => ?_⟩
  rw [frame_define] at hentry
  split at hentry
  · next hid =>
    rcases Frame.mem_insert hentry with rfl | hentry
    · cases v with
      | closure c =>
        have hc := hv c rfl
        simp only [Binding.of]
        split
        · next hframe =>
          have hlevel := hc.scope c.scope.frame c.scope.outer (List.suffix_refl _)
          rw [hframe, ← hid.1] at hlevel
          exact ⟨_, hlevel, hc.declared⟩
        · exact hv
      | _ => exact hv
    · exact h.bindings id entry hentry
  · exact h.bindings id entry hentry

/-- The levels are right about **a scope that is opened**. -/
theorem enclose_scope (h : st.Mirrors texts levels) (hs : Levelled levels s.chain) :
    Levelled (levels ++ [s.chain.length]) (st.enclose s).1.chain := by
  have hpush := hs.push
  rwa [h.length_eq] at hpush

/-- **One more frame**, of any level, binds nothing yet. -/
theorem push {st' : Store} (h : st.Mirrors texts levels)
    (hsize : st'.frames.size = st.frames.size + 1) (hframe : ∀ id, st'.frame id = st.frame id)
    (k : Nat) : st'.Mirrors texts (levels ++ [k]) where
  length_eq := by rw [List.length_append, h.length_eq, hsize, List.length_singleton]
  bindings id entry hentry :=
    (h.bindings id entry (hframe id ▸ hentry)).mono List.prefix_rfl (List.prefix_append ..)

theorem enclose (h : st.Mirrors texts levels) (s : Scope) :
    (st.enclose s).2.Mirrors texts (levels ++ [s.chain.length]) :=
  h.push (st.size_enclose s) (st.frame_enclose s) _

theorem clear (h : st.Mirrors texts levels) (s : Scope) : (st.clear s).Mirrors texts levels := by
  refine ⟨h.length_eq.trans (by simp), fun id entry hentry => ?_⟩
  rw [frame_clear] at hentry
  split at hentry
  · cases hentry
  · exact h.bindings id entry hentry

theorem bindAll (s : Scope) (params : List String) :
    ∀ {args : List Value} {st : Store}, st.Mirrors texts levels →
      (∀ a ∈ args, ∀ c, a = .closure c → c.Mirrors texts levels) →
      (st.bindAll s params args).Mirrors texts levels := by
  induction params with
  | nil => exact fun h _ => h
  | cons p ps ih =>
    intro args st h hargs
    cases args with
    | nil =>
      exact ih (h.define (v := .null) nofun s p) fun _ ha => absurd ha List.not_mem_nil
    | cons v vs =>
      obtain ⟨hv, hvs⟩ := List.forall_mem_cons.mp hargs
      exact ih (h.define hv s p) hvs

end Store.Mirrors

end Levels

/-! ### Runs -/

/-- **Scopes are as deep as their code is nested**: code runs in a scope that has a frame around its
innermost one for each block around the code. The worlds are the levels of the frames made. -/
def mirroring (texts : List String) : Discipline where
  World := List Nat
  Extends levels levels' := levels <+: levels'
  Runs levels site node :=
    Levelled levels site.scope.chain ∧ StandsAt texts site.text site.scope.outer.length node
  Fits levels c := c.Mirrors texts levels
  Sound levels st := st.Mirrors texts levels
  refl _ := List.prefix_rfl
  trans := List.IsPrefix.trans
  runs_mono h := fun ⟨hscope, hstands⟩ => ⟨hscope.mono h, hstands⟩
  fits_mono h hc := hc.mono List.prefix_rfl h
  operand := fun ⟨hscope, hstands⟩ hchild => ⟨hscope, hstands.child hchild⟩
  start := fun ⟨hscope, hstands⟩ hs => ⟨hscope, hstands.start hs⟩
  function := fun ⟨hscope, hstands⟩ => ⟨hscope, _, hstands⟩
  lookup := fun ⟨hscope, _⟩ hst hfound => hst.find? hscope hfound
  define _ _ hst hv := hst.define hv _ _
  enter := fun ⟨hscope, hstands⟩ hst =>
    ⟨_, List.prefix_append .., hst.enclose _, fun _ hs =>
      ⟨hst.enclose_scope hscope, hstands.opens hs⟩⟩
  activate := fun ⟨hscope, hdeclared⟩ hst hargs =>
    ⟨_, List.prefix_append .., .bindAll _ _ (hst.enclose _) fun a ha c hc =>
        (hargs a ha c hc).mono List.prefix_rfl (List.prefix_append ..),
      fun _ ht => ⟨hst.enclose_scope hscope, hdeclared.body ht⟩⟩
  clear _ _ hst _ := hst.clear _

/-- An interpreter that has **run these texts**, one after the other. A text that is no program
leaves it as it was, so such a text is not among them. -/
inductive Interpreter.HasRead (opts : Options) : List String → Interpreter → Prop
  /-- It has run none yet. -/
  | new : HasRead opts [] (.new opts)
  /-- It has run one more. -/
  | text {texts : List String} {it it' : Interpreter} {bounds : Bounds} {source : String}
    {p : Program} {r : Except RuntimeError Value} (h : HasRead opts texts it)
    (hp : Program.ofSource source = .ok p) (hrun : it.run bounds p = some (r, it')) :
    HasRead opts (texts ++ [source]) it'
  /-- The lines printed have been taken away. -/
  | taken {texts : List String} {it : Interpreter} (h : HasRead opts texts it) :
    HasRead opts texts it.takeOutput.2
  /-- It has been started afresh. -/
  | reset {texts : List String} {it : Interpreter} (h : HasRead opts texts it) :
    HasRead opts texts it.reset

/-- The interpreter **mirrors the texts** that it has run. -/
structure Interpreter.Mirrors (texts : List String) (it : Interpreter) : Prop where
  /-- The texts are numbered in their order. -/
  texts_eq : it.texts = texts.length
  /-- No frame is around the global one. -/
  outer_nil : it.globals.outer = []
  /-- The store mirrors the texts. -/
  store : ∃ levels, Levelled levels it.globals.chain ∧ it.state.store.Mirrors texts levels

namespace Interpreter.Mirrors

variable {texts : List String} {it : Interpreter}

/-- A program **starts in the global scope**, where no block is around it. -/
theorem start (h : it.Mirrors texts) {source : String} {p : Program}
    (hp : Program.ofSource source = .ok p) (bounds : Bounds) :
    ∃ levels, Levelled levels it.globals.chain ∧
      (mirroring (texts ++ [source])).Holds levels (it.start bounds p) := by
  obtain ⟨levels, hglobals, hstore⟩ := h.store
  refine ⟨levels, hglobals, fun s hs => ⟨hglobals, source, p, ?_, hp, ?_⟩,
    hstore.mono (List.prefix_append ..)⟩
  · change (texts ++ [source])[it.texts]? = some source
    rw [h.texts_eq, List.getElem?_concat_length]
  · change p.HasAt it.globals.outer.length (.stmt s)
    rw [h.outer_nil]
    exact .statement hs

/-- With a new global scope, which has no frame around it and binds the builtin procedure, the texts
are mirrored **as they were**. -/
theorem root {levels : List Nat} {st : Store} (h : st.Mirrors texts levels) (options : Options)
    (output : Array String) (depth : Nat) :
    Interpreter.Mirrors texts ⟨options, st.root.1, texts.length,
      ⟨st.root.2.define st.root.1 Keyword.print.spelling .builtin, output, depth⟩⟩ := by
  have hroot : st.root.2.Mirrors texts (levels ++ [0]) :=
    h.push (by simp [Store.root]) st.frame_root 0
  have hbuiltin : ∀ c, Value.builtin = .closure c → c.Mirrors texts (levels ++ [0]) := by simp
  have hnone : Levelled levels [] := fun id rest hid =>
    absurd (List.suffix_nil.mp hid) (List.cons_ne_nil id rest)
  have hscope := hnone.push
  rw [h.length_eq] at hscope
  exact ⟨rfl, rfl, levels ++ [0], hscope, hroot.define hbuiltin _ _⟩

end Interpreter.Mirrors

/-- **Whatever texts an interpreter has run**, it mirrors them. -/
theorem Interpreter.HasRead.mirrors {opts : Options} {texts : List String} {it : Interpreter}
    (h : it.HasRead opts texts) : it.Mirrors texts := by
  induction h with
  | new =>
    have hempty : Store.empty.Mirrors [] [] := ⟨rfl, fun id entry hentry => nomatch hentry⟩
    exact .root hempty opts _ _
  | @text texts it it' bounds source p r _ hp hrun ih =>
    obtain ⟨levels, hglobals, hholds⟩ := ih.start hp bounds
    obtain ⟨levels', hlevels, hstore⟩ := hholds.run hrun
    have hkept := Interpreter.run_globals hrun
    refine ⟨?_, hkept ▸ ih.outer_nil, levels', hkept ▸ hglobals.mono hlevels, hstore⟩
    rw [Interpreter.run_texts hrun, ih.texts_eq, List.length_append, List.length_singleton]
  | taken _ ih => exact ⟨ih.texts_eq, ih.outer_nil, ih.store⟩
  | @reset texts it _ ih =>
    obtain ⟨levels, -, hstore⟩ := ih.store
    have hroot := Interpreter.Mirrors.root (hstore.clear it.globals) it.options #[] 0
    rwa [← ih.texts_eq] at hroot

/-! ### What a look-up walks through -/

/-- A look-up of a name in one frame after another, **and how many frames it walks through**. -/
def Store.walk (st : Store) (name : String) : List FrameId → Option Value × Nat
  | [] => (none, 0)
  | id :: outer =>
    match (st.frame id).find? name with
    | some b => (some (b.resolve ⟨id, outer⟩), 1)
    | none => ((st.walk name outer).1, (st.walk name outer).2 + 1)

section Walks

variable (st : Store) (name : String) (ids : List FrameId)

/-- What is found on the walk **is what the look-up finds**. -/
theorem Store.walk_fst : (st.walk name ids).1 = st.find? name ids := by
  induction ids with
  | nil => rfl
  | cons id outer ih =>
    rw [walk, find?]
    cases (st.frame id).find? name with
    | some b => rfl
    | none => exact ih

theorem Store.walk_snd_le : (st.walk name ids).2 ≤ ids.length := by
  induction ids with
  | nil => exact Nat.le_refl _
  | cons id outer ih =>
    rw [walk]
    split
    · exact Nat.succ_le_of_lt (Nat.succ_pos _)
    · exact Nat.succ_le_succ ih

end Walks

/-- The expression or statement that **is about to run**. -/
def Task.node? : Task → Option Node
  | .expression _ e => some (.expr e)
  | .statement _ s => some (.stmt s)
  | _ => none

/-- **The scope chain mirrors the nesting of the source.** After any texts, at every moment of a run
of a further text at which an expression or a statement is about to run, it stands in one of the
texts, with a certain number of blocks around it; and its scope has one frame more than there are
blocks, in loops, in calls, and in calls of closures that were made long before. There are at most
as many blocks as the parser lets nest, so look-ups from there walk through no more than 257
frames. -/
theorem chain_length_eq_enclosing_blocks {opts : Options} {texts : List String} {it : Interpreter}
    (hit : it.HasRead opts texts) (bounds : Bounds) {source : String} {p : Program}
    (hp : Program.ofSource source = .ok p) {m : Moment}
    (hm : Moment.Visits it.options bounds.turns (it.start bounds p) m) {site : Site} {node : Node}
    (hsite : m.task.site? = some site) (hnode : m.task.node? = some node) :
    ∃ text q k, (texts ++ [source])[site.text]? = some text ∧ Program.ofSource text = .ok q ∧
      q.HasAt k node ∧ (∀ j, q.HasAt j node → j = k) ∧
      site.scope.chain.length = 1 + k ∧ k ≤ nestingLimit ∧
      ∀ name, (m.state.store.walk name site.scope.chain).1 = m.state.store.get? site.scope name ∧
        (m.state.store.walk name site.scope.chain).2 ≤ 257 := by
  obtain ⟨levels, -, hholds⟩ := hit.mirrors.start hp bounds
  obtain ⟨levels', -, hholds⟩ := hholds.visits hm
  have hruns : (mirroring (texts ++ [source])).Runs levels' site node := by
    have htask := hholds.task
    generalize m.task = task at hsite hnode htask
    cases task <;> cases hsite <;> cases hnode <;> exact htask
  obtain ⟨-, text, q, htext, hq, hat⟩ := hruns
  have hle := hat.le_nestingLimit hq
  refine ⟨text, q, _, htext, hq, hat, fun j hj => hj.unique hq hat, Nat.add_comm .., hle,
    fun name => ⟨Store.walk_fst .., ?_⟩⟩
  exact (Store.walk_snd_le ..).trans (Nat.succ_le_succ hle)

/-- In the body of a procedure that an earlier text declared, called from a block: the block around
the body counts, and the one around the call does not. -/
theorem chain_length_eq_enclosing_blocks_inCall :
    ∃ it m, Interpreter.HasRead {} ["function f(){f}"] it ∧
      Program.ofSource "{f()}" = .ok
        ⟨[.block (.mk [.expression (.call (.name "f" ⟨1, 2⟩) [] ⟨1, 4⟩)] ⟨0, 5⟩)]⟩ ∧
      Moment.Visits it.options 1 (it.start ⟨1, 1⟩
        ⟨[.block (.mk [.expression (.call (.name "f" ⟨1, 2⟩) [] ⟨1, 4⟩)] ⟨0, 5⟩)]⟩) m ∧
      m.task = .expression ⟨0, ⟨2, [0]⟩⟩ (.name "f" ⟨13, 14⟩) ∧
      ∃ text q k, ["function f(){f}", "{f()}"][0]? = some text ∧ Program.ofSource text = .ok q ∧
        q.HasAt k (.expr (.name "f" ⟨13, 14⟩)) ∧ [2, 0].length = 1 + k := by
  obtain ⟨tokens, hscanned, rfl⟩ : ∃ tokens,
      Scanned 0 ['f', 'u', 'n', 'c', 't', 'i', 'o', 'n', ' ', 'f', '(', ')', '{', 'f', '}'] tokens ∧
      tokens = [⟨.keyword .function, ⟨0, 8⟩⟩, ⟨.identifier "f", ⟨9, 10⟩⟩,
        ⟨.mark .leftParen, ⟨10, 11⟩⟩, ⟨.mark .rightParen, ⟨11, 12⟩⟩, ⟨.mark .leftBrace, ⟨12, 13⟩⟩,
        ⟨.identifier "f", ⟨13, 14⟩⟩, ⟨.mark .rightBrace, ⟨14, 15⟩⟩, ⟨.endOfInput, ⟨15, 15⟩⟩] :=
    ⟨_, .token rfl <| .blank rfl <| .token rfl <| .token rfl <| .token rfl <| .token rfl <|
      .token rfl <| .token rfl .nil, rfl⟩
  obtain ⟨tokens', hscanned', rfl⟩ : ∃ tokens, Scanned 0 ['{', 'f', '(', ')', '}'] tokens ∧
      tokens = [⟨.mark .leftBrace, ⟨0, 1⟩⟩, ⟨.identifier "f", ⟨1, 2⟩⟩, ⟨.mark .leftParen, ⟨2, 3⟩⟩,
        ⟨.mark .rightParen, ⟨3, 4⟩⟩, ⟨.mark .rightBrace, ⟨4, 5⟩⟩, ⟨.endOfInput, ⟨5, 5⟩⟩] :=
    ⟨_, .token rfl <| .token rfl <| .token rfl <| .token rfl <| .token rfl .nil, rfl⟩
  have htokens : tokenize "function f(){f}" = _ := tokenize_ofList_eq_ok_iff.mpr hscanned
  have htokens' : tokenize "{f()}" = _ := tokenize_ofList_eq_ok_iff.mpr hscanned'
  have hp : Program.ofSource "function f(){f}" = .ok
      ⟨[.function "f" [] (.mk [.expression (.name "f" ⟨13, 14⟩)] ⟨12, 15⟩) ⟨0, 15⟩]⟩ := by
    rw [Program.ofSource, htokens]
    rfl
  have hp' : Program.ofSource "{f()}" = .ok
      ⟨[.block (.mk [.expression (.call (.name "f" ⟨1, 2⟩) [] ⟨1, 4⟩)] ⟨0, 5⟩)]⟩ := by
    rw [Program.ofSource, htokens']
    rfl
  have hrun : (Interpreter.new {}).run ⟨1, 1⟩
      ⟨[.function "f" [] (.mk [.expression (.name "f" ⟨13, 14⟩)] ⟨12, 15⟩) ⟨0, 15⟩]⟩ =
      some (_, _) := rfl
  have harity : ¬ (Options.strictArity {} = true ∧
      ([] : List Value).length ≠ ([] : List String).length) := fun h => h.2 rfl
  have hpos : 0 < defaultCallDepth := by decide
  have hlimit : ∀ limit, Options.maxCallDepth {} = some limit → 0 < limit := fun _ hlimit =>
    Option.some.inj hlimit ▸ hpos
  obtain ⟨it, m, hit, hvisits, htask⟩ : ∃ it m, Interpreter.HasRead {} ["function f(){f}"] it ∧
      Moment.Visits it.options 1 (it.start ⟨1, 1⟩
        ⟨[.block (.mk [.expression (.call (.name "f" ⟨1, 2⟩) [] ⟨1, 4⟩)] ⟨0, 5⟩)]⟩) m ∧
      m.task = .expression ⟨0, ⟨2, [0]⟩⟩ (.name "f" ⟨13, 14⟩) :=
    ⟨_, _, .text .new hp hrun, .tail (.tail (.tail (.tail (.tail (.tail (.tail (.tail .refl .first)
      .block) .first) (.value rfl)) (.call rfl rfl)) (.body harity hlimit)) .first) (.value rfl),
      rfl⟩
  obtain ⟨text, q, k, htext, hq, hat, -, hlength, -⟩ :=
    chain_length_eq_enclosing_blocks hit ⟨1, 1⟩ hp' hvisits (congrArg Task.site? htask)
      (congrArg Task.node? htask)
  exact ⟨it, m, hit, hp', hvisits, htask, text, q, k, htext, hq, hat, hlength⟩

end ScopeScript
