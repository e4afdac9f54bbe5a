import ScopeScript.Proofs.Relocation

/-!
# The nodes of a program and their tokens

Expressions, statements and blocks are the **nodes** of a program. Each of them is spelled by
certain tokens of the program (`ScopeScript.Program.Has.spelled`), its span runs from the first of
these to the last (`ScopeScript.Node.Spelled.covers`), and the nodes right below it are spelled by
some of these tokens, one node after the other (`ScopeScript.Node.Spelled.children`).

A subexpression need not be an expression of the grammar where it stands, since an operator or an
argument list may follow it. With its own tokens alone it is one, as nothing follows them.
-/

namespace ScopeScript

/-! ### Nodes -/

/-- A **node of a program**. -/
inductive Node where
  /-- An expression. -/
  | expr (e : Expr)
  /-- A statement. -/
  | stmt (s : Stmt)
  /-- A block. -/
  | block (b : Block)

namespace Node

/-- Where a node stands. -/
def span : Node → Span
  | expr e => e.span
  | stmt s => s.span
  | block b => b.span

/-- The nodes **right below** a node, in the order in which they are written. -/
def children : Node → List Node
  | expr (.literal _ _) => []
  | expr (.name _ _) => []
  | expr (.binary _ l r _) => [expr l, expr r]
  | expr (.logical _ l r _) => [expr l, expr r]
  | expr (.unary _ e _) => [expr e]
  | expr (.call f args _) => expr f :: args.map expr
  | stmt (.declare _ none _) => []
  | stmt (.declare _ (some e) _) => [expr e]
  | stmt (.print e _) => [expr e]
  | stmt (.block b) => [block b]
  | stmt (.conditional test b none _) => [expr test, block b]
  | stmt (.conditional test b (some c) _) => [expr test, block b, block c]
  | stmt (.loop test b _) => [expr test, block b]
  | stmt (.function _ _ b _) => [block b]
  | stmt (.exit e _) => [expr e]
  | stmt (.expression e) => [expr e]
  | block b => b.statements.map stmt

/-- What the grammar takes a node for. -/
def phrase : Node → Phrase
  | expr e => .expression e
  | stmt s => .bare s
  | block b => .block b

/-- The tokens **spell the node**: it is derived from them, and nothing follows. -/
def Spelled (node : Node) (tokens : List Token) : Prop :=
  Derives nestingLimit node.phrase tokens []

end Node

/-- The **nodes of a program**: its statements, and what is below a node. -/
inductive Program.Has (p : Program) : Node → Prop
  /-- A statement of the program. -/
  | statement {s} (h : s ∈ p.statements) : p.Has (.stmt s)
  /-- A node right below another. -/
  | child {node child} (h : p.Has node) (hchild : child ∈ node.children) : p.Has child

/-! ### Where a span begins and ends -/

/-- The span runs **from the first token to the last**, which is no semicolon. -/
structure Covers (tokens : List Token) (s : Span) : Prop where
  /-- The span begins where the first token does. -/
  first : ∃ t ∈ tokens.head?, t.span.start = s.start
  /-- The span ends where the last token does. -/
  last : ∃ t ∈ tokens.getLast?, t.span.stop = s.stop ∧ t.kind ≠ .mark .semicolon

/-- The span covers the tokens **that are taken**. -/
def Covered (ts rest : List Token) (s : Span) : Prop :=
  ∃ taken, ts = taken ++ rest ∧ Covers taken s

/-- The span of a phrase that has one. -/
def Phrase.span? : Phrase → Option Span
  | primary e | call e | unary e | level _ e | expression e => some e.span
  | block b => some b.span
  | bare s => some s.span
  | _ => none

theorem Takes.suffix {k : Nat} {ts rest : List Token} (h : Takes k ts rest) : rest <:+ ts := by
  obtain ⟨taken, rfl, -⟩ := h
  exact List.suffix_append taken rest

section Covering

variable {ts mid mid' rest : List Token} {s s' : Span}

theorem Covered.token {kind : Token.Kind} (hkind : kind ≠ .mark .semicolon) :
    Covered (⟨kind, s⟩ :: rest) rest s :=
  ⟨[⟨kind, s⟩], rfl, ⟨_, rfl, rfl⟩, ⟨_, rfl, rfl, hkind⟩⟩

/-- **Merged spans cover what lies between them** as well. -/
theorem Covered.merge (hts : Consecutive ts) (h : Covered ts mid s) (hgap : mid' <:+ mid)
    (h' : Consecutive mid' → Covered mid' rest s') : Covered ts rest (s.merge s') := by
  obtain ⟨taken, rfl, ⟨t, ht, hstart⟩, u, hu, hstop, -⟩ := h
  obtain ⟨gap, rfl⟩ := hgap
  have hlater : Consecutive mid' :=
    hts.sublist ((List.suffix_append ..).trans (List.suffix_append ..)).sublist
  obtain ⟨taken', rfl, ⟨t', ht', hstart'⟩, u', hu', hstop', hkind⟩ := h' hlater
  have hmem : ∀ v ∈ taken, ∀ v' ∈ taken', v.span.stop ≤ v'.span.start := fun v hv v' hv' =>
    (List.pairwise_append.mp hts.stop_le_start).2.2 v hv v' (by simp [hv'])
  have hleft := hmem t (List.mem_of_mem_head? ht) t' (List.mem_of_mem_head? ht')
  have hright := hmem u (List.mem_of_mem_getLast? hu) u' (List.mem_of_mem_getLast? hu')
  have ht_le := hts.start_le_stop t (by simp [List.mem_of_mem_head? ht])
  have hu_le := hts.start_le_stop u' (by simp [List.mem_of_mem_getLast? hu'])
  refine ⟨taken ++ gap ++ taken', by simp, ⟨t, ?_, ?_⟩, u', ?_, ?_, hkind⟩
  · rw [List.append_assoc, List.head?_append]
    simp [Option.mem_def.mp ht]
  · simp only [Span.merge]
    omega
  · rw [List.getLast?_append]
    simp [Option.mem_def.mp hu']
  · simp only [Span.merge]
    omega

end Covering

theorem Token.Kind.ne_semicolon_of_unaryOp? {kind : Token.Kind} {op : UnaryOp}
    (h : kind.unaryOp? = some op) : kind ≠ .mark .semicolon := by
  rintro rfl
  contradiction

/-- **The span of a phrase covers its tokens.** -/
theorem Derives.covered {n : Nat} {phrase : Phrase} {ts rest : List Token}
    (h : Derives n phrase ts rest) (hts : Consecutive ts) :
    ∀ s ∈ phrase.span?, Covered ts rest s := by
  induction h with
  | number | text | truth | falsehood | name | builtin =>
    rintro _ ⟨⟩
    exact .token nofun
  | parentheses h _ =>
    rintro _ ⟨⟩
    rw [Expr.span_withSpan]
    exact .merge hts (.token nofun) h.takes.suffix fun _ => .token nofun
  | callee _ ih | unsigned _ ih | tightest _ ih | operand _ _ ih | expression _ _ ih => exact ih hts
  | application _ hargs ih _ =>
    rintro _ ⟨⟩
    exact .merge hts (ih hts _ rfl) (hargs.takes.suffix.trans (List.suffix_cons ..)) fun _ =>
      .token nofun
  | signed hop _ ih =>
    rintro _ ⟨⟩
    exact .merge hts (.token (Token.Kind.ne_semicolon_of_unaryOp? hop)) (List.suffix_refl _)
      fun hmid => ih hmid _ rfl
  | @operation _ a b _ op _ _ _ _ _ _ _ iha ihb =>
    rintro _ ⟨⟩
    have hspan : (op.node a b).span = a.span.merge b.span := by cases op <;> rfl
    rw [hspan]
    exact .merge hts (iha hts _ rfl) (List.suffix_cons ..) fun hmid => ihb hmid _ rfl
  | block h _ =>
    rintro _ ⟨⟩
    exact .merge hts (.token nofun) h.takes.suffix fun _ => .token nofun
  | declare =>
    rintro _ ⟨⟩
    exact .merge hts (.token nofun) (List.suffix_refl _) fun _ => .token nofun
  | declareAs _ ih =>
    rintro _ ⟨⟩
    exact .merge hts (.token nofun) (List.suffix_append [_, _] _) fun hmid => ih hmid _ rfl
  | print _ ih | exit _ ih =>
    rintro _ ⟨⟩
    exact .merge hts (.token nofun) (List.suffix_refl _) fun hmid => ih hmid _ rfl
  | conditional htest _ _ ih | loop htest _ _ ih =>
    rintro _ ⟨⟩
    exact .merge hts (.token nofun) htest.takes.suffix fun hmid => ih hmid _ rfl
  | alternative htest hb _ _ _ ih =>
    rintro _ ⟨⟩
    refine .merge hts (.token nofun) ?_ fun hmid => ih hmid _ rfl
    exact ((List.suffix_cons ..).trans hb.takes.suffix).trans htest.takes.suffix
  | function hparams _ _ ih =>
    rintro _ ⟨⟩
    refine .merge hts (.token nofun) ?_ fun hmid => ih hmid _ rfl
    exact ((List.suffix_cons ..).trans hparams.takes.suffix).trans (List.suffix_append [_, _] _)
  | blockAlone _ ih | expressionAlone _ _ ih => exact ih hts
  | _ => exact nofun

/-! ### The nodes below a node -/

/-- The nodes are spelled by parts of the tokens, **one node after the other**. -/
inductive SpelledInOrder : List Node → List Token → Prop
  /-- There may be tokens that belong to no node. -/
  | nil {tokens} : SpelledInOrder [] tokens
  /-- The first node comes before the others. -/
  | cons {node nodes tokens after} (gap : List Token) (hnode : node.Spelled tokens)
    (hnodes : SpelledInOrder nodes after) :
    SpelledInOrder (node :: nodes) (gap ++ (tokens ++ after))

namespace SpelledInOrder

variable {nodes nodes' : List Node} {tokens tokens' : List Token}

theorem prepend (front : List Token) (h : SpelledInOrder nodes tokens) :
    SpelledInOrder nodes (front ++ tokens) := by
  cases h with
  | nil => exact .nil
  | cons gap hnode hnodes =>
    rw [← List.append_assoc]
    exact .cons (front ++ gap) hnode hnodes

theorem append (h : SpelledInOrder nodes tokens) (h' : SpelledInOrder nodes' tokens') :
    SpelledInOrder (nodes ++ nodes') (tokens ++ tokens') := by
  induction h with
  | nil => exact h'.prepend _
  | cons gap hnode _ ih =>
    rw [List.append_assoc, List.append_assoc]
    exact .cons gap hnode ih

/-- Each of the nodes is spelled by **some of the tokens**. -/
theorem exists_infix {node : Node} (h : SpelledInOrder nodes tokens) (hnode : node ∈ nodes) :
    ∃ part, part <:+: tokens ∧ node.Spelled part := by
  induction h with
  | nil => contradiction
  | @cons first nodes part after gap hfirst _ ih =>
    rcases List.mem_cons.mp hnode with rfl | hlater
    · exact ⟨part, ⟨gap, after, List.append_assoc ..⟩, hfirst⟩
    · obtain ⟨part', hpart, hspelled⟩ := ih hlater
      refine ⟨part', hpart.trans ?_, hspelled⟩
      exact ((List.suffix_append part after).trans (List.suffix_append ..)).isInfix

end SpelledInOrder

/-- The nodes are spelled in order by the tokens **that are taken**. -/
def Spread (nodes : List Node) (ts rest : List Token) : Prop :=
  ∃ taken, ts = taken ++ rest ∧ SpelledInOrder nodes taken

namespace Spread

variable {nodes nodes' : List Node} {ts mid rest : List Token}

theorem none {k : Nat} (h : Takes k ts rest) : Spread [] ts rest := by
  obtain ⟨taken, rfl, -⟩ := h
  exact ⟨taken, rfl, .nil⟩

/-- Tokens around the nodes belong to none of them. -/
theorem around (front close : List Token) (h : Spread nodes ts (close ++ rest)) :
    Spread nodes (front ++ ts) rest := by
  obtain ⟨taken, rfl, h⟩ := h
  have hclose : SpelledInOrder [] close := .nil
  refine ⟨front ++ (taken ++ close), by simp only [List.append_assoc], .prepend front ?_⟩
  simpa only [List.append_nil] using h.append hclose

/-- Nodes of two parts that follow one another are **in order**. -/
theorem join (glue : List Token) (h : Spread nodes ts (glue ++ mid)) (h' : Spread nodes' mid rest) :
    Spread (nodes ++ nodes') ts rest := by
  obtain ⟨taken, rfl, h⟩ := h
  obtain ⟨taken', rfl, h'⟩ := h'
  exact ⟨taken ++ (glue ++ taken'), by simp only [List.append_assoc], h.append (h'.prepend glue)⟩

end Spread

theorem Node.Spelled.spread {node : Node} {taken : List Token} (h : node.Spelled taken)
    (rest : List Token) : Spread [node] (taken ++ rest) rest := by
  have hnone : SpelledInOrder [] ([] : List Token) := .nil
  refine ⟨taken, rfl, ?_⟩
  simpa only [List.nil_append, List.append_nil] using SpelledInOrder.cons [] h hnone

/-- **What the grammar takes for a node** is one. -/
theorem Derives.spread_node {n : Nat} {node : Node} {ts rest : List Token}
    (h : Derives n node.phrase ts rest) (hn : n ≤ nestingLimit) : Spread [node] ts rest := by
  obtain ⟨taken, rfl, hmoved⟩ := h.movable
  have hnode : node.Spelled taken := by
    have hphrase := hmoved nestingLimit [] hn fun _ => nofun
    rwa [List.append_nil] at hphrase
  exact hnode.spread rest

theorem Derives.loosest {n l : Nat} {e : Expr} {ts rest : List Token}
    (h : Derives n (.level l e) ts rest) (hl : l ≤ InfixOp.levelCount) :
    Derives n (.level 0 e) ts rest := by
  induction l with
  | zero => exact h
  | succ l ih => exact ih (.operand hl h) (Nat.le_of_succ_le hl)

/-- **A subexpression is an expression by itself**: an operator or an argument list that follows it
is not among its tokens, and it takes one level of nesting of those that enclose it. -/
theorem Derives.spread_operand {n l : Nat} {e : Expr} {ts rest : List Token}
    (h : Derives n (.level l e) ts rest) (hl : l ≤ InfixOp.levelCount) (hn : n < nestingLimit) :
    Spread [.expr e] ts rest := by
  obtain ⟨taken, rfl, hmoved⟩ := h.movable
  obtain ⟨m, hm⟩ := Nat.exists_eq_add_of_lt hn
  have hoperand := hmoved (n + m) [] (Nat.le_add_right n m) fun _ => nofun
  have hnode : Node.Spelled (.expr e) taken := by
    have hexpression := (hoperand.loosest hl).expression nofun
    rwa [List.append_nil, ← hm] at hexpression
  exact hnode.spread rest

/-- The nodes right below the node of a phrase, or the **outermost nodes** of a phrase that is none
itself. -/
def Phrase.parts : Phrase → List Node
  | primary e | call e | unary e | level _ e | expression e => (Node.expr e).children
  | expressions es | arguments es => es.map .expr
  | names _ | parameters _ => []
  | block b => (Node.block b).children
  | bare s => (Node.stmt s).children
  | statement s => [.stmt s]
  | statements ss => ss.map .stmt

/-- There is **room for the phrase** as an expression by itself. -/
def Phrase.Fits (n : Nat) : Phrase → Prop
  | primary _ | call _ | unary _ | level _ _ => n < nestingLimit
  | _ => n ≤ nestingLimit

theorem Node.children_withSpan (e : Expr) (s : Span) :
    (Node.expr (e.withSpan s)).children = (Node.expr e).children := by
  cases e <;> rfl

theorem Node.parts_phrase (node : Node) : node.phrase.parts = node.children := by
  cases node <;> rfl

/-- **The parts of a phrase are spelled in order.** -/
theorem Derives.spread {n : Nat} {phrase : Phrase} {ts rest : List Token}
    (h : Derives n phrase ts rest) : phrase.Fits n → Spread phrase.parts ts rest := by
  induction h with
  | number | text | truth | falsehood | name | builtin => exact fun _ => .none (.one nofun)
  | @parentheses n e opening closing ts rest h ih =>
    intro hn
    rw [Phrase.parts, Node.children_withSpan]
    exact .around [_] [_] (ih (Nat.le_of_lt hn))
  | callee _ ih | unsigned _ ih | tightest _ ih | operand _ _ ih => exact ih
  | application hf hargs _ ihargs =>
    intro hn
    have hcallee := Derives.spread_operand (.tightest (.unsigned hf)) (Nat.le_refl _) hn
    exact hcallee.join [_] (.around [] [_] (ihargs (Nat.le_of_lt hn)))
  | signed hop h _ =>
    intro hn
    have hoperand := Derives.spread_operand (.tightest h) (Nat.le_refl _) (Nat.lt_of_succ_lt hn)
    exact .around [_] [] hoperand
  | @operation n a b kind op span ts mid rest hop ha hb _ _ =>
    intro hn
    have hparts : (Node.expr (op.node a b)).children = [.expr a] ++ [.expr b] := by
      cases op <;> rfl
    rw [Phrase.parts, hparts]
    exact (ha.spread_operand (Nat.le_of_lt op.level_lt) hn).join [_]
      (hb.spread_operand op.level_lt hn)
  | expression _ _ ih => exact ih
  | oneExpression h _ => exact fun hn => Derives.spread_node h hn
  | moreExpressions h _ _ ihs =>
    exact fun hn => (Derives.spread_node h hn).join [_] (ihs hn)
  | noArguments | noParameters | noStatements => exact fun _ => .none (.none _)
  | someArguments _ ih => exact ih
  | oneName => exact fun _ => .none (.one nofun)
  | moreNames _ ih => exact fun hn => .around [_, _] [] (ih hn)
  | someParameters _ ih => exact ih
  | declare => exact fun _ => .around [_, _] [] (.none (.none _))
  | declareAs h _ => exact fun hn => .around [_, _, _] [] (Derives.spread_node h hn)
  | print h _ | exit h _ => exact fun hn => .around [_] [] (Derives.spread_node h hn)
  | conditional htest hb _ _ | loop htest hb _ _ =>
    intro hn
    exact .around [_] [] ((Derives.spread_node htest hn).join [] (Derives.spread_node hb hn))
  | @alternative n test b c word span ts mid mid' rest htest hb hc _ _ _ =>
    intro hn
    have hblocks : Spread [.block b, .block c] mid rest :=
      .join [_] (Derives.spread_node hb hn) (Derives.spread_node hc hn)
    exact .around [_] [] ((Derives.spread_node htest hn).join [] hblocks)
  | function _ hb ih _ =>
    exact fun hn => .around [_, _, _] [] ((ih hn).join [_] (Derives.spread_node hb hn))
  | blockAlone h _ | expressionAlone h _ _ | plain h _ => exact fun hn => Derives.spread_node h hn
  | terminated h _ => exact fun hn => .around [] [_] (Derives.spread_node h hn)
  | block _ ih => exact fun hn => .around [_] [_] (ih (Nat.le_of_succ_le hn))
  | moreStatements _ _ ih ihs => exact fun hn => (ih hn).join [] (ihs hn)

/-! ### The nodes of a program -/

namespace Node.Spelled

variable {node : Node} {tokens : List Token}

/-- The tokens of a node are those **that its span covers**. -/
theorem covers (h : node.Spelled tokens) (htokens : Consecutive tokens) :
    Covers tokens node.span := by
  have hspan : node.span ∈ node.phrase.span? := by cases node <;> rfl
  obtain ⟨taken, heq, hcovers⟩ := Derives.covered h htokens _ hspan
  rwa [heq, List.append_nil]

/-- The nodes right below a node are spelled **by its tokens**, in order. -/
theorem children (h : node.Spelled tokens) : SpelledInOrder node.children tokens := by
  have hfits : node.phrase.Fits nestingLimit := by cases node <;> exact Nat.le_refl _
  obtain ⟨taken, heq, hparts⟩ := Derives.spread h hfits
  rwa [heq, List.append_nil, ← node.parts_phrase]

end Node.Spelled

/-- **Every node of a program is spelled** by some of its tokens. -/
theorem Program.Has.spelled {p : Program} {body : List Token} {last : Token} {node : Node}
    (hp : Derives nestingLimit (.statements p.statements) (body ++ [last]) [last])
    (hnode : p.Has node) : ∃ part, part <:+: body ∧ node.Spelled part := by
  induction hnode with
  | statement h =>
    obtain ⟨taken, heq, hstatements⟩ := hp.spread (Nat.le_refl _)
    rw [← List.append_cancel_right heq] at hstatements
    exact hstatements.exists_infix (List.mem_map_of_mem h)
  | child _ hchild ih =>
    obtain ⟨part, hpart, hspelled⟩ := ih
    obtain ⟨part', hpart', hspelled'⟩ := hspelled.children.exists_infix hchild
    exact ⟨part', hpart'.trans hpart, hspelled'⟩

/-! ### Spans among one another -/

/-- A span that covers tokens **reaches around each** of them. -/
theorem Covers.around {tokens : List Token} {s : Span} {v : Token} (h : Covers tokens s)
    (htokens : Consecutive tokens) (hv : v ∈ tokens) :
    s.start ≤ v.span.start ∧ v.span.stop ≤ s.stop := by
  obtain ⟨⟨t, ht, hstart⟩, u, hu, hstop, -⟩ := h
  obtain ⟨behind, rfl⟩ := List.head?_eq_some_iff.mp ht
  obtain ⟨front, hfront⟩ := List.getLast?_eq_some_iff.mp hu
  have ht_le := htokens.start_le_stop t (List.mem_of_mem_head? ht)
  have hu_le := htokens.start_le_stop u (List.mem_of_mem_getLast? hu)
  rw [← hstart, ← hstop]
  constructor
  · rcases List.mem_cons.mp hv with rfl | hlater
    · exact Nat.le_refl _
    · exact ht_le.trans ((List.pairwise_cons.mp htokens.stop_le_start).1 v hlater)
  · rw [hfront] at hv htokens
    rcases List.mem_append.mp hv with hearlier | hlast
    · have happart := (List.pairwise_append.mp htokens.stop_le_start).2.2 v hearlier u (by simp)
      exact happart.trans hu_le
    · rw [List.mem_singleton.mp hlast]

/-- The span of tokens among others **lies inside** the span of all. -/
theorem Covers.inside {tokens part : List Token} {s s' : Span} (h : Covers tokens s)
    (htokens : Consecutive tokens) (hpart : part <:+: tokens) (h' : Covers part s') :
    s.start ≤ s'.start ∧ s'.stop ≤ s.stop := by
  obtain ⟨⟨t, ht, hstart⟩, u, hu, hstop, -⟩ := h'
  rw [← hstart, ← hstop]
  exact ⟨(h.around htokens (hpart.subset (List.mem_of_mem_head? ht))).1,
    (h.around htokens (hpart.subset (List.mem_of_mem_getLast? hu))).2⟩

/-- Nodes that are spelled in order **stand one behind the other**. -/
theorem SpelledInOrder.pairwise {nodes : List Node} {tokens : List Token}
    (h : SpelledInOrder nodes tokens) (htokens : Consecutive tokens) :
    nodes.Pairwise fun a b => a.span.stop ≤ b.span.start := by
  induction h with
  | nil => exact .nil
  | @cons node nodes part after gap hnode hnodes ih =>
    have hboth : Consecutive (part ++ after) :=
      htokens.sublist (List.suffix_append ..).sublist
    have hafter : Consecutive after := hboth.sublist (List.suffix_append ..).sublist
    have hpart : Consecutive part := hboth.sublist (List.prefix_append ..).sublist
    refine .cons (fun later hlater => ?_) (ih hafter)
    obtain ⟨part', hpart', hspelled⟩ := hnodes.exists_infix hlater
    -- the last token of the one node stands before the first of the other
    obtain ⟨-, u, hu, hstop, -⟩ := hnode.covers hpart
    obtain ⟨⟨t, ht, hstart⟩, -⟩ := hspelled.covers (hafter.sublist hpart'.sublist)
    rw [← hstop, ← hstart]
    exact (List.pairwise_append.mp hboth.stop_le_start).2.2 u (List.mem_of_mem_getLast? hu) t
      (hpart'.subset (List.mem_of_mem_head? ht))

end ScopeScript
