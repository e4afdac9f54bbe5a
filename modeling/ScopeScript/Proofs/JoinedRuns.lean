import ScopeScript.Proofs.BuiltinName
import ScopeScript.Proofs.Concatenation
import ScopeScript.Proofs.Sessions

/-!
# Two programs in one run

A text with two programs in it, one behind the other, **runs as they do one after the other**
(`ScopeScript.joinedText_runs`): the first program, and then, if it comes to its end without an error
and without a `return` outside of procedures, the second one in the state that the first has left.

In one text the second program stands further on, and what it declares has the number of the first
text. So this is a matter of code that stands elsewhere: the second text is put behind the first
(`ScopeScript.Placement.behind`). Two things have to be shown for it. No closure is there already
with a number that is yet to be given (`ScopeScript.Interpreter.Numbered`). And closures of the two
programs stay different in the one text, as the procedures of the second begin where those of the
first have ended (`ScopeScript.Interpreter.ne_behind`).
-/

namespace ScopeScript

/-! ### Closures and their texts -/

/-- **All closures that the frames bind** have a text and a declaration as the predicate says. -/
def Store.EachClosure (P : Nat → FunctionDecl → Prop) (st : Store) : Prop :=
  st.Each fun b => ∀ s c, b.resolve s = .closure c → P c.text c.decl

namespace Store.EachClosure

variable {P Q : Nat → FunctionDecl → Prop} {st : Store}

/-- A frame keeps of a closure **at least its text and its declaration**. -/
theorem of_value {v : Value} (hv : ∀ c, v = .closure c → P c.text c.decl) (id : FrameId) :
    ∀ s c, (Binding.of id v).resolve s = .closure c → P c.text c.decl := by
  intro s c hc
  cases v with
  | closure c' =>
    rw [Binding.of] at hc
    split at hc
    · cases hc
      exact hv c' rfl
    · cases hc
      exact hv c rfl
  | _ => cases hc

theorem of_get? (h : st.EachClosure P) {s : Scope} {name : String} {c : Closure}
    (hc : st.get? s name = some (.closure c)) : P c.text c.decl := by
  obtain ⟨id, outer, b, -, hb, hv⟩ := Each.of_find? h hc
  exact hb _ c hv.symm

theorem define (h : st.EachClosure P) {v : Value} (hv : ∀ c, v = .closure c → P c.text c.decl)
    (s : Scope) (name : String) : (st.define s name v).EachClosure P :=
  Each.define h (of_value hv _) name

theorem bindAll (h : st.EachClosure P) (s : Scope) (params : List String) {args : List Value}
    (hargs : ∀ a ∈ args, ∀ c, a = .closure c → P c.text c.decl) :
    (st.bindAll s params args).EachClosure P :=
  Each.bindAll s params h (of_value nofun _) fun a ha => of_value (hargs a ha) _

theorem enclose (h : st.EachClosure P) (s : Scope) : (st.enclose s).2.EachClosure P :=
  Each.enclose h s

theorem clear (h : st.EachClosure P) (s : Scope) : (st.clear s).EachClosure P :=
  Each.clear h s

theorem root (h : st.EachClosure P) : st.root.2.EachClosure P := by
  intro id entry hentry
  rw [frame_root] at hentry
  exact h id entry hentry

theorem mono (h : st.EachClosure P) (hPQ : ∀ text decl, P text decl → Q text decl) :
    st.EachClosure Q :=
  fun id entry hentry s c hc => hPQ _ _ (h id entry hentry s c hc)

theorem empty : Store.empty.EachClosure P := by
  intro id entry hentry
  rw [frame_of_size_le (Nat.zero_le id)] at hentry
  cases hentry

end Store.EachClosure

/-- Code in which **any block** may be the body of a procedure. -/
def Code.ofNodes (Has : Node → Prop)
    (child : ∀ {node child}, Has node → child ∈ node.children → Has child) : Code where
  Has := Has
  Body b := Has (.block b)
  child := child
  declares h := child h (List.mem_singleton_self _)
  body h := h

/-- **In each text its code runs**, and the closures that there may be have their bodies there. -/
def Regime.ofTexts (π : Placement) (code : Nat → Code)
    (apart : ∀ {c d : Closure}, (code c.text).Body c.decl.body → (code d.text).Body d.decl.body →
      π.text c.text = π.text d.text →
      π.span c.text c.decl.body.span = π.span d.text d.decl.body.span →
        c.text = d.text ∧ c.decl.body.span = d.decl.body.span) : Regime π where
  Runs site node := (code site.text).Has node
  Fits c := (code c.text).Body c.decl.body
  Sound := Store.EachClosure fun text decl => (code text).Body decl.body
  operand h hchild := (code _).child h hchild
  start h he := Code.start h he
  block h _ hb _ ht := Code.statements ((code _).child h hb) _ ht
  test h _ := Code.loopTest h
  body h _ ht := Code.statements ((code _).body h) _ ht
  function h := (code _).declares h
  lookup _ hst hc := hst.of_get? hc
  define _ _ hst hv := hst.define hv _ _
  enclose := Store.EachClosure.enclose
  bind _ hst hargs := (hst.enclose _).bindAll _ _ hargs
  clear _ h _ := h.clear _
  apart := apart

/-! ### Numbers of texts -/

/-- All closures of the interpreter are **of texts that it has read**. So it is with a new one, and
all that can be done with an interpreter keeps it so. -/
def Interpreter.Numbered (it : Interpreter) : Prop :=
  it.state.store.EachClosure fun text _ => text < it.texts

/-- Whatever stands in the texts with **smaller numbers**. -/
def readBefore (n : Nat) : Regime .same :=
  .ofTexts .same (fun text => .ofNodes (fun _ => text < n) fun h _ => h)
    fun _ _ htext hspan => ⟨htext, hspan⟩

theorem Interpreter.run_texts {it it' : Interpreter} {bounds : Bounds} {p : Program}
    {r : Except RuntimeError Value} (h : it.run bounds p = some (r, it')) :
    it'.texts = it.texts + 1 := by
  rw [Interpreter.run_apply] at h
  split at h <;> cases h <;> rfl

namespace Interpreter.Numbered

variable {it it' : Interpreter} {bounds : Bounds}

theorem new (opts : Options) : (Interpreter.new opts).Numbered :=
  Store.EachClosure.empty.root.define nofun _ _

theorem run {p : Program} {r : Except RuntimeError Value} (h : it.Numbered)
    (hrun : it.run bounds p = some (r, it')) : it'.Numbered := by
  have hholds : (readBefore (it.texts + 1)).Holds (it.start bounds p) :=
    ⟨fun _ _ => Nat.lt_succ_self _, h.mono fun _ _ => Nat.lt_succ_of_lt⟩
  rw [Numbered, run_texts hrun]
  exact hholds.run hrun

theorem runSource {source : String} {r : Except Failure Value} (h : it.Numbered)
    (hrun : it.runSource bounds source = some (r, it')) : it'.Numbered := by
  rcases runSource_cases hrun with rfl | ⟨p, r, -, hrun⟩
  · exact h
  · exact h.run hrun

theorem takeOutput (h : it.Numbered) : it.takeOutput.2.Numbered :=
  h

theorem define (h : it.Numbered) (name : String) {v : Value}
    (hv : ∀ c, v = .closure c → c.text < it.texts) : (it.define name v).Numbered :=
  Store.EachClosure.define h hv _ _

theorem reset (h : it.Numbered) : it.reset.Numbered :=
  (Store.EachClosure.clear h _).root.define (v := .builtin) nofun _ _

end Interpreter.Numbered

/-- **An interpreter that has run some texts** has closures of these only. -/
theorem Interpreter.HasRun.numbered {opts : Options} {it : Interpreter} (h : it.HasRun opts) :
    it.Numbered := by
  induction h with
  | new => exact .new opts
  | text _ hrun ih => exact ih.runSource hrun
  | taken _ ih => exact ih.takeOutput

/-! ### The second text behind the first -/

/-- The placement leaves a text **where it is**. -/
def Placement.Keeps (π : Placement) (text : Nat) : Prop :=
  π.text text = text ∧ π.span text = id

section Kept

variable {π : Placement}

theorem Closure.placed_of_keeps {c : Closure} (h : π.Keeps c.text) : c.placed π = c := by
  obtain ⟨text, ⟨name, params, body⟩, scope⟩ := c
  rw [Closure.placed, h.1, h.2, FunctionDecl.mapSpan, body.mapSpan_id]

theorem Binding.placed_of_keeps {b : Binding}
    (h : ∀ s c, b.resolve s = .closure c → π.Keeps c.text) : b.placed π = b := by
  rcases b with (v | ⟨text, decl⟩)
  · cases v with
    | closure c => rw [Binding.placed, Value.placed, Closure.placed_of_keeps (h ⟨0, []⟩ c rfl)]
    | _ => rfl
  · have hplaced := Closure.placed_of_keeps (h ⟨0, []⟩ _ rfl)
    rw [Closure.placed, Closure.mk.injEq] at hplaced
    rw [Binding.placed, hplaced.1, hplaced.2.1]

/-- A store **stays as it is** if the texts of its closures do. -/
theorem Store.placed_of_keeps {st : Store} (h : st.EachClosure fun text _ => π.Keeps text) :
    st.placed π = st := by
  refine congrArg Store.mk (Array.ext (by simp) fun i hi hi' => ?_)
  have hframe : st.frame i = st.frames[i] := by simp [Store.frame, hi']
  rw [Array.getElem_map, Frame.placed, ← hframe]
  refine (List.map_congr_left fun entry hentry => ?_).trans (List.map_id _)
  rw [Binding.placed_of_keeps (h i entry hentry), id]

end Kept

/-- **The text after that with the number is put behind it**, so many bytes further on. All other
texts stay where they are. -/
def Placement.behind (n shift : Nat) : Placement where
  text t := if t = n + 1 then n else t
  span t := if t = n + 1 then Span.forth shift else id

section Behind

variable (n shift : Nat)

theorem Placement.behind_keeps {text : Nat} (h : text ≠ n + 1) : (behind n shift).Keeps text :=
  ⟨if_neg h, if_neg h⟩

theorem Placement.behind_text : (behind n shift).text (n + 1) = n :=
  if_pos rfl

theorem Placement.behind_span : (behind n shift).span (n + 1) = Span.forth shift :=
  if_pos rfl

theorem Span.forth_injective : Function.Injective (Span.forth shift) := by
  intro s t h
  have hback : ∀ s : Span, Span.back shift (Span.forth shift s) = s := fun s => by
    simp [Span.back, Span.forth]
  rw [← hback s, h, hback t]

end Behind

/-- The store binds a closure of the text **with the node in its body**. -/
def Store.BindsCode (st : Store) (text : Nat) (node : Node) : Prop :=
  ∃ id, ∃ entry ∈ st.frame id, ∃ s c, entry.2.resolve s = .closure c ∧ c.text = text ∧
    (Node.block c.decl.body).Below node

/-- **The code of each text**, where a program runs in the next text and another in the one after
it. Of the texts before there are the bodies of the closures that are bound. -/
def Interpreter.codeInTurn (it : Interpreter) (p q : Program) (text : Nat) : Code :=
  .ofNodes
    (fun node => it.state.store.BindsCode text node ∨
      (text = it.texts ∧ p.Has node) ∨ (text = it.texts + 1 ∧ q.Has node))
    fun h hchild => h.imp
      (fun ⟨id, entry, hentry, s, c, hc, htext, hbelow⟩ =>
        ⟨id, entry, hentry, s, c, hc, htext, hbelow.tail hchild⟩)
      (Or.imp (And.imp_right (.child · hchild)) (And.imp_right (.child · hchild)))

namespace Interpreter

variable {it : Interpreter} {p q : Program} {shift : Nat}

/-- All closures that are bound are **of the code of their texts**. -/
theorem sound_codeInTurn (it : Interpreter) (p q : Program) :
    it.state.store.EachClosure fun text decl => (it.codeInTurn p q text).Body decl.body :=
  fun id entry hentry s c hc => .inl ⟨id, entry, hentry, s, c, hc, rfl, .refl⟩

theorem Numbered.lt_of_bindsCode (h : it.Numbered) {text : Nat} {node : Node}
    (hnode : it.state.store.BindsCode text node) : text < it.texts := by
  obtain ⟨id, entry, hentry, s, c, hc, rfl, -⟩ := hnode
  exact h id entry hentry s c hc

/-- In the next text stands **the first program**. -/
theorem Numbered.has_of_codeInTurn (h : it.Numbered) {node : Node}
    (hnode : (it.codeInTurn p q it.texts).Has node) : p.Has node := by
  rcases hnode with hnode | ⟨-, hnode⟩ | ⟨htext, -⟩
  · exact absurd (h.lt_of_bindsCode hnode) (Nat.lt_irrefl _)
  · exact hnode
  · omega

/-- What stands in the second text **does not come where a procedure of another text is**, if it
begins where the procedures of the first text have ended. -/
theorem ne_behind (h : it.Numbered) (hshift : ∀ b, p.Has (.block b) → b.span.stop < shift)
    {text : Nat} (hfirst : text ≠ it.texts + 1) {b b' : Block}
    (hb' : (it.codeInTurn p q text).Body b')
    (htext : (Placement.behind it.texts shift).text (it.texts + 1) =
      (Placement.behind it.texts shift).text text) :
    (Placement.behind it.texts shift).span (it.texts + 1) b.span ≠
      (Placement.behind it.texts shift).span text b'.span := by
  obtain ⟨hkept, hspan⟩ := Placement.behind_keeps it.texts shift hfirst
  rw [Placement.behind_text, hkept] at htext
  subst htext
  rw [Placement.behind_span, hspan]
  intro heq
  have hlt := hshift b' (h.has_of_codeInTurn hb')
  rw [← id_eq b'.span, ← heq, Span.forth] at hlt
  exact absurd hlt (Nat.not_lt.mpr (Nat.le_add_left ..))

/-- **Procedures of all texts stay different** when the second text is put behind the first. -/
theorem apart_behind (h : it.Numbered) (hshift : ∀ b, p.Has (.block b) → b.span.stop < shift)
    {c d : Closure} (hc : (it.codeInTurn p q c.text).Body c.decl.body)
    (hd : (it.codeInTurn p q d.text).Body d.decl.body)
    (htext : (Placement.behind it.texts shift).text c.text =
      (Placement.behind it.texts shift).text d.text)
    (hspan : (Placement.behind it.texts shift).span c.text c.decl.body.span =
      (Placement.behind it.texts shift).span d.text d.decl.body.span) :
    c.text = d.text ∧ c.decl.body.span = d.decl.body.span := by
  by_cases hsecond : c.text = it.texts + 1 <;> by_cases hsecond' : d.text = it.texts + 1
  · rw [hsecond, hsecond', Placement.behind_span] at hspan
    exact ⟨hsecond.trans hsecond'.symm, Span.forth_injective shift hspan⟩
  · rw [hsecond] at htext hspan
    exact absurd hspan (ne_behind h hshift hsecond' hd htext)
  · rw [hsecond'] at htext hspan
    exact absurd hspan.symm (ne_behind h hshift hsecond hc htext.symm)
  · obtain ⟨hkept, hspan₁⟩ := Placement.behind_keeps it.texts shift hsecond
    obtain ⟨hkept', hspan₂⟩ := Placement.behind_keeps it.texts shift hsecond'
    rw [hkept, hkept'] at htext
    rw [hspan₁, hspan₂] at hspan
    exact ⟨htext, hspan⟩

end Interpreter

/-! ### One run for both -/

section Statements

variable {opts : Options} {call : Caller} {turns : Nat} {site : Site}

/-- **Statements behind others** run if those come to their end. -/
theorem executeAll_append (last : Value) (ss ss' : List Stmt) (st : State) :
    executeAll opts call turns site last (ss ++ ss') st =
      (executeAll opts call turns site last ss st).andThen fun flow st =>
        match flow with
        | .normal v => executeAll opts call turns site v ss' st
        | .exit v => .done (.exit v) st := by
  induction ss generalizing last st with
  | nil =>
    rw [List.nil_append, executeAll_nil]
    rfl
  | cons s ss ih =>
    rw [List.cons_append, executeAll_cons, executeAll_cons]
    cases execute opts call turns site s st with
    | done flow st =>
      cases flow with
      | normal v => exact ih v st
      | exit v => rfl
    | failed e st => rfl
    | unfinished => rfl

end Statements

theorem Stmt.mapSpanAll_ne_nil {f : Span → Span} {ss : List Stmt} (hne : ss ≠ []) :
    Stmt.mapSpanAll f ss ≠ [] := by
  cases ss with
  | nil => contradiction
  | cons s ss => exact List.cons_ne_nil _ _

/-- **A text runs alike** in two places. -/
theorem Regime.text_placed {π : Placement} (R : Regime π) (it : Interpreter) (bounds : Bounds)
    (site : Site) {ss : List Stmt} {st : State} (hss : ∀ s ∈ ss, R.Runs site (.stmt s))
    (hst : R.Sound st.store) :
    R.Flows (it.executeAll bounds site ss st)
      (it.executeAll bounds (site.placed π) (Stmt.mapSpanAll (π.span site.text) ss) (st.placed π)) :=
  executeAll_placed (R.call_placed it.options bounds.turns bounds.calls) ss hss hst allows_null

namespace Interpreter

/-- Statements behind others run **as if by themselves**. Only if there were none would the value be
that of the last one before them. -/
theorem executeAll_append (it : Interpreter) (bounds : Bounds) (site : Site) (ss : List Stmt)
    {ss' : List Stmt} (hne : ss' ≠ []) (st : State) :
    it.executeAll bounds site (ss ++ ss') st =
      (it.executeAll bounds site ss st).andThen fun flow st =>
        match flow with
        | .normal _ => it.executeAll bounds site ss' st
        | .exit v => .done (.exit v) st := by
  obtain ⟨s, ss', rfl⟩ := List.exists_cons_of_ne_nil hne
  refine (ScopeScript.executeAll_append .null ss (s :: ss') st).trans ?_
  simp only [executeAll, executeAll_cons]

/-- The program **comes to its end**, without an error and without a `return` outside of
procedures. -/
def completes (it : Interpreter) (bounds : Bounds) (p : Program) : Bool :=
  match it.executeAll bounds it.nextText.1 p.statements it.state with
  | .done (.normal _) _ => true
  | _ => false

variable {it : Interpreter} {bounds : Bounds} {p q : Program} {shift : Nat}

/-- **A program that does not come to its end** goes no further in front of another. -/
theorem run_joined_of_not_completes (h : it.completes bounds p = false)
    (hne : q.statements ≠ []) :
    it.run bounds (p.joined q shift) = it.run bounds p := by
  rw [run_apply, run_apply, Program.joined, executeAll_append _ _ _ _ (Stmt.mapSpanAll_ne_nil hne)]
  rw [completes] at h
  cases ho : it.executeAll bounds it.nextText.1 p.statements it.state with
  | done flow st =>
    cases flow with
    | normal v => simp [ho] at h
    | exit v => rfl
  | failed e st => rfl
  | unfinished => rfl

/-- A program that comes to its end **leaves the state from which another goes on** behind it. -/
theorem exists_run_of_completes (h : it.completes bounds p = true) (hne : q.statements ≠ [])
    (shift : Nat) :
    ∃ v st, it.run bounds p = some (.ok v, { it.nextText.2 with state := st }) ∧
      it.executeAll bounds it.nextText.1 (p.joined q shift).statements it.state =
        it.executeAll bounds it.nextText.1 (Stmt.mapSpanAll (Span.forth shift) q.statements) st := by
  rw [run_apply, Program.joined, executeAll_append _ _ _ _ (Stmt.mapSpanAll_ne_nil hne)]
  rw [completes] at h
  cases ho : it.executeAll bounds it.nextText.1 p.statements it.state with
  | done flow st =>
    cases flow with
    | normal v => exact ⟨v, st, rfl, rfl⟩
    | exit v => simp [ho] at h
  | failed e st => simp [ho] at h
  | unfinished => simp [ho] at h

/-- The code of two programs in texts of their own, **with the second behind the first**. -/
def joining (h : it.Numbered) (q : Program)
    (hshift : ∀ b, p.Has (.block b) → b.span.stop < shift) : Regime (.behind it.texts shift) :=
  .ofTexts _ (it.codeInTurn p q) (apart_behind h hshift)

/-- **What comes of two programs in one text**, if this is what comes of them in texts of their own.
Values and errors are the same, but that what is of the second text stands behind the first. -/
inductive JoinedResult (it : Interpreter) (p q : Program) (shift : Nat) :
    Except RuntimeError Value → Except RuntimeError Value → Prop
  /-- The same value. -/
  | ok (v : Value) : JoinedResult it p q shift (.ok v) (.ok (v.placed (.behind it.texts shift)))
  /-- The same error, raised by the code of one of the texts. -/
  | error {text : Nat} {e : RuntimeError} (h : e.From (it.codeInTurn p q text)) :
    JoinedResult it p q shift (.error e)
      (.error (e.mapSpan ((Placement.behind it.texts shift).span text)))

/-- A run of two programs in one text **next to runs of them in texts of their own**. -/
structure JoinedRun (it : Interpreter) (p q : Program) (shift : Nat)
    (ran ran' : Except RuntimeError Value × Interpreter) : Prop where
  /-- The same comes of it. -/
  result : it.JoinedResult p q shift ran.1 ran'.1
  /-- The options are the same. -/
  options : ran'.2.options = ran.2.options
  /-- The global scope is the same. -/
  globals : ran'.2.globals = ran.2.globals
  /-- The same is bound and the same lines are printed, but that what is of the second text stands
  behind the first. -/
  state : ran'.2.state = ran.2.state.placed (.behind it.texts shift)

/-- What comes of a run, **by how its statements come out**. -/
def ending (it : Interpreter) : Outcome Flow → Option (Except RuntimeError Value × Interpreter)
  | .done flow st => some (.ok flow.value, { it with state := st })
  | .failed e st => some (.error e, { it with state := st })
  | .unfinished => none

/-- Statements that run alike with the second text behind the first **make two such runs**. -/
theorem JoinedRun.of_flows {h : it.Numbered} {hshift : ∀ b, p.Has (.block b) → b.span.stop < shift}
    {o o' : Outcome Flow} (hmeet : (joining h q hshift).Flows o o') {it₁ it₂ : Interpreter}
    (hoptions : it₂.options = it₁.options) (hglobals : it₂.globals = it₁.globals) :
    Option.Rel (it.JoinedRun p q shift) (it₁.ending o) (it₂.ending o') := by
  cases hmeet with
  | @done flow st hst hflow =>
    have hresult : it.JoinedResult p q shift (.ok flow.value) _ := .ok flow.value
    rw [← Flow.value_placed] at hresult
    exact .some ⟨hresult, hoptions, hglobals, rfl⟩
  | failed text e hst he =>
    obtain ⟨s, ex, hex, hspan, habout⟩ := he
    exact .some ⟨.error ⟨ex, hex, hspan, habout⟩, hoptions, hglobals, rfl⟩
  | unfinished => exact .none

/-- **Behind a program that comes to its end, another runs as it does in the next text.** -/
theorem run_joined_of_completes (h : it.Numbered)
    (hshift : ∀ b, p.Has (.block b) → b.span.stop < shift)
    (hcompletes : it.completes bounds p = true) (hne : q.statements ≠ []) :
    ∃ v it', it.run bounds p = some (.ok v, it') ∧
      Option.Rel (it.JoinedRun p q shift) (it'.run bounds q)
        (it.run bounds (p.joined q shift)) := by
  obtain ⟨v, st, hrun, hjoined⟩ := exists_run_of_completes hcompletes hne shift
  refine ⟨v, _, hrun, ?_⟩
  have hfirst : (joining h q hshift).Holds (it.start bounds p) :=
    ⟨fun s hs => .inr (.inl ⟨rfl, .statement hs⟩), it.sound_codeInTurn p q⟩
  -- what the first program has left bound is of its own text or of earlier ones
  have hstate : st.placed (.behind it.texts shift) = st := by
    rw [State.placed, Store.placed_of_keeps ((h.run hrun).mono fun text _ hlt =>
      Placement.behind_keeps it.texts shift (Nat.ne_of_lt hlt))]
  have hsecond := (joining h q hshift).text_placed it bounds ⟨it.texts + 1, it.globals⟩
    (fun s hs => .inr (.inr ⟨rfl, .statement hs⟩)) (hfirst.run hrun)
  rw [Site.placed, Placement.behind_text, Placement.behind_span, hstate] at hsecond
  rw [run_apply, run_apply, hjoined]
  exact JoinedRun.of_flows hsecond rfl rfl

end Interpreter

/-- A block of a program **ends in its text**, and so before the second text begins. -/
theorem Program.Has.stop_lt_joinedShift {a : String} {p : Program} (hp : Program.ofSource a = .ok p)
    {b : Block} (hb : p.Has (.block b)) : b.span.stop < joinedShift a := by
  obtain ⟨text, hcuts, -⟩ := Program.Has.exists_text hb hp
  exact Nat.lt_add_right_iff_pos.mpr (by decide) |>.trans_le' hcuts.stop_le

/-- **A text with two programs runs as they do one after the other.** Let two texts be programs, each
with a statement, and let the last token of the first text be no semicolon. Then both in one text,
with a semicolon on a line of its own between them, are one program: the statements of the first,
and behind them those of the second as many bytes further on as come before it. An interpreter whose
closures are of texts that it has read runs it in two ways. If the first program does not come to
its end by itself, then the run is the same as that. If it does, then the run is the same as one of
the second program by the interpreter after that: the value or the error, the lines printed and all
that is bound, but that what is of the second text stands behind the first. -/
theorem joinedText_runs {a b : String} {p q : Program} (hp : Program.ofSource a = .ok p)
    (hq : Program.ofSource b = .ok q) (hpne : p.statements ≠ []) (hqne : q.statements ≠ [])
    (hlast : ¬ EndsInSemicolon a) :
    Program.ofSource (joinedText a b) = .ok (p.joined q (joinedShift a)) ∧
      ∀ (it : Interpreter) (bounds : Bounds), it.Numbered →
        (it.completes bounds p = false →
          it.run bounds (p.joined q (joinedShift a)) = it.run bounds p) ∧
        (it.completes bounds p = true →
          ∃ v it', it.run bounds p = some (.ok v, it') ∧
            Option.Rel (it.JoinedRun p q (joinedShift a)) (it'.run bounds q)
              (it.run bounds (p.joined q (joinedShift a)))) :=
  ⟨ofSource_joined hp hq hpne hlast, fun _ _ hit =>
    ⟨fun hstops => Interpreter.run_joined_of_not_completes hstops hqne, fun hcompletes =>
      Interpreter.run_joined_of_completes hit (fun _ => Program.Has.stop_lt_joinedShift hp)
        hcompletes hqne⟩⟩

/-- A procedure is declared in the first text, before a comment up to its end, and called in the
second. -/
theorem joinedText_runs_comment :
    ∃ p q, Program.ofSource "function f(){g}//" = .ok p ∧ Program.ofSource "f()" = .ok q ∧
      p.statements ≠ [] ∧ q.statements ≠ [] ∧ ¬ EndsInSemicolon "function f(){g}//" ∧
      (Interpreter.new {}).Numbered ∧ (Interpreter.new {}).completes ⟨1, 1⟩ p = true ∧
      Program.ofSource "function f(){g}//\n;\nf()" = .ok (p.joined q 20) ∧
      ∃ v it, (Interpreter.new {}).run ⟨1, 1⟩ p = some (.ok v, it) ∧
        Option.Rel ((Interpreter.new {}).JoinedRun p q 20) (it.run ⟨1, 1⟩ q)
          ((Interpreter.new {}).run ⟨1, 1⟩ (p.joined q 20)) := by
  obtain ⟨declared, hdeclared, rfl⟩ : ∃ tokens,
      Scanned 0 ['f', 'u', 'n', 'c', 't', 'i', 'o', 'n', ' ', 'f', '(', ')', '\x7b', 'g', '\x7d',
        '/', '/'] tokens ∧
      tokens = [⟨.keyword .function, ⟨0, 8⟩⟩, ⟨.identifier "f", ⟨9, 10⟩⟩,
        ⟨.mark .leftParen, ⟨10, 11⟩⟩, ⟨.mark .rightParen, ⟨11, 12⟩⟩, ⟨.mark .leftBrace, ⟨12, 13⟩⟩,
        ⟨.identifier "g", ⟨13, 14⟩⟩, ⟨.mark .rightBrace, ⟨14, 15⟩⟩, ⟨.endOfInput, ⟨17, 17⟩⟩] :=
    ⟨_, .token rfl <| .blank rfl <| .token rfl <| .token rfl <| .token rfl <| .token rfl <|
      .token rfl <| .token rfl <| .blank rfl .nil, rfl⟩
  obtain ⟨called, hcalled, rfl⟩ : ∃ tokens, Scanned 0 ['f', '(', ')'] tokens ∧
      tokens = [⟨.identifier "f", ⟨0, 1⟩⟩, ⟨.mark .leftParen, ⟨1, 2⟩⟩,
        ⟨.mark .rightParen, ⟨2, 3⟩⟩, ⟨.endOfInput, ⟨3, 3⟩⟩] :=
    ⟨_, .token rfl <| .token rfl <| .token rfl .nil, rfl⟩
  have hdeclared : tokenize "function f(){g}//" = _ := tokenize_ofList_eq_ok_iff.mpr hdeclared
  have hcalled : tokenize "f()" = _ := tokenize_ofList_eq_ok_iff.mpr hcalled
  have hp : Program.ofSource "function f(){g}//" = .ok
      ⟨[.function "f" [] (.mk [.expression (.name "g" ⟨13, 14⟩)] ⟨12, 15⟩) ⟨0, 15⟩]⟩ := by
    rw [Program.ofSource, hdeclared]
    rfl
  have hq : Program.ofSource "f()" = .ok
      ⟨[.expression (.call (.name "f" ⟨0, 1⟩) [] ⟨0, 3⟩)]⟩ := by
    rw [Program.ofSource, hcalled]
    rfl
  have hlast : ¬ EndsInSemicolon "function f(){g}//" := by
    rintro ⟨tokens, span, last, h⟩
    rw [hdeclared] at h
    have hkind := congrArg (fun ts => (ts.reverse[1]?).map Token.kind) (Except.ok.inj h)
    simp at hkind
  obtain ⟨hjoined, hruns⟩ := joinedText_runs hp hq (List.cons_ne_nil _ _) (List.cons_ne_nil _ _) hlast
  have hnumbered := Interpreter.Numbered.new {}
  have hcompletes : (Interpreter.new {}).completes ⟨1, 1⟩
      ⟨[.function "f" [] (.mk [.expression (.name "g" ⟨13, 14⟩)] ⟨12, 15⟩) ⟨0, 15⟩]⟩ = true := rfl
  exact ⟨_, _, hp, hq, List.cons_ne_nil _ _, List.cons_ne_nil _ _, hlast, hnumbered, hcompletes,
    hjoined, (hruns _ ⟨1, 1⟩ hnumbered).2 hcompletes⟩

end ScopeScript
