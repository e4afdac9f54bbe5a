import Mathlib.Data.List.Pairwise
import ScopeScript.Proofs.NodeText

/-!
# The blocks around a node

**How many blocks enclose a node** is counted on the way down to it: every block adds one for what
is in it (`ScopeScript.Program.HasAt`). Blocks that stand alone, the branches of conditionals, the
bodies of loops and those of procedures all count; the test of a loop counts the block of the loop,
as it is evaluated in the scope of that block.

In a program that is read from a source, one of two nodes encloses the other, or their spans are
apart (`ScopeScript.Program.HasAt.nested_or_apart`). A node stands in one place, so there is one
such number for it (`ScopeScript.Program.HasAt.unique`); and it is never above the limit on nesting
(`ScopeScript.Program.HasAt.le_nestingLimit`).
-/

namespace ScopeScript

/-! ### Counting blocks -/

/-- How many **blocks more** are around a node than around the one right above it. -/
def Node.blocksTo : Node → Node → Nat
  | .block _, _ => 1
  | .stmt (.loop _ _ _), .expr _ => 1
  | _, _ => 0

@[simp] theorem Node.blocksTo_expr (e : Expr) (child : Node) : (expr e).blocksTo child = 0 :=
  rfl

/-- The second node is the first one or below it, **so many blocks further in**. -/
inductive Node.Encloses : Node → Nat → Node → Prop
  /-- A node encloses itself. -/
  | refl {node} : Encloses node 0 node
  /-- It encloses what a node right below it encloses. -/
  | child {node child k inner} (hchild : child ∈ node.children) (h : Encloses child k inner) :
    Encloses node (node.blocksTo child + k) inner

/-- The node is in the program, **with so many blocks around it**. -/
def Program.HasAt (p : Program) (k : Nat) (node : Node) : Prop :=
  ∃ s ∈ p.statements, (Node.stmt s).Encloses k node

/-- One node further down. -/
theorem Node.Encloses.trans_child {node mid child : Node} {k : Nat} (h : node.Encloses k mid)
    (hchild : child ∈ mid.children) : node.Encloses (k + mid.blocksTo child) child := by
  induction h with
  | refl =>
    rw [Nat.add_comm]
    exact .child hchild .refl
  | child hfirst _ ih =>
    rw [Nat.add_assoc]
    exact .child hfirst (ih hchild)

namespace Program.HasAt

variable {p : Program} {node : Node} {k : Nat}

/-- **No block** is around the statements of a program. -/
theorem statement {s : Stmt} (hs : s ∈ p.statements) : p.HasAt 0 (.stmt s) :=
  ⟨s, hs, .refl⟩

theorem child {child : Node} (h : p.HasAt k node) (hchild : child ∈ node.children) :
    p.HasAt (k + node.blocksTo child) child := by
  obtain ⟨s, hs, h⟩ := h
  exact ⟨s, hs, h.trans_child hchild⟩

end Program.HasAt

/-! ### A node stands in one place -/

/-- What is right below a node is **smaller**. -/
theorem Node.sizeOf_lt_of_mem_children {node child : Node} (h : child ∈ node.children) :
    sizeOf child < sizeOf node := by
  have hexprs : ∀ es : List Expr, child ∈ es.map expr → sizeOf child ≤ sizeOf es := by
    intro es hmem
    obtain ⟨e, he, rfl⟩ := List.mem_map.mp hmem
    have hlt := List.sizeOf_lt_of_mem he
    simp only [expr.sizeOf_spec]
    omega
  have hstmts : ∀ ss : List Stmt, child ∈ ss.map stmt → sizeOf child ≤ sizeOf ss := by
    intro ss hmem
    obtain ⟨s, hs, rfl⟩ := List.mem_map.mp hmem
    have hlt := List.sizeOf_lt_of_mem hs
    simp only [stmt.sizeOf_spec]
    omega
  revert h
  fun_cases Node.children node <;> intro h
  case case6 f args span =>
    rcases List.mem_cons.mp h with rfl | hargs
    · simp
      omega
    · have hle := hexprs args hargs
      simp
      omega
  case case17 b =>
    have hle := hstmts _ h
    cases b
    simp [Block.statements] at hle ⊢
    omega
  -- elsewhere the nodes right below are written out, one by one
  all_goals simp only [List.mem_cons, List.not_mem_nil, or_false] at h
  case case3 | case4 | case11 | case13 => rcases h with rfl | rfl <;> simp <;> omega
  case case12 => rcases h with rfl | rfl | rfl <;> simp <;> omega
  all_goals
    subst h
    simp <;> omega

namespace Node.Encloses

variable {node root root' : Node} {k j : Nat} {tokens : List Token}

/-- What a node encloses is **no larger**. -/
theorem sizeOf_le (h : root.Encloses k node) : sizeOf node ≤ sizeOf root := by
  induction h with
  | refl => exact Nat.le_refl _
  | child hchild _ ih => exact ih.trans (Node.sizeOf_lt_of_mem_children hchild).le

/-- A node further down is **another one**. -/
theorem not_of_mem_children {child : Node} (hchild : child ∈ node.children) :
    ¬ child.Encloses k node := fun h =>
  Nat.not_le_of_lt (Node.sizeOf_lt_of_mem_children hchild) h.sizeOf_le

/-- What a node encloses is spelled by **some of its tokens**. -/
theorem exists_infix (h : root.Encloses k node) (hroot : root.Spelled tokens) :
    ∃ part, part <:+: tokens ∧ node.Spelled part := by
  induction h generalizing tokens with
  | refl => exact ⟨tokens, List.infix_rfl, hroot⟩
  | child hchild _ ih =>
    obtain ⟨part, hpart, hspelled⟩ := hroot.children.exists_infix hchild
    obtain ⟨part', hpart', hspelled'⟩ := ih hspelled
    exact ⟨part', hpart'.trans hpart, hspelled'⟩

end Node.Encloses

/-- A token that is no mark of the end **is not empty**. -/
theorem Scanned.start_lt_stop {pos : Nat} {cs : List Char} {tokens : List Token}
    (h : Scanned pos cs tokens) :
    ∀ t ∈ tokens, t.kind ≠ .endOfInput → t.span.start < t.span.stop := by
  induction h with
  | nil => simp
  | blank _ _ ih => exact ih
  | @token pos c cs kind text rest tokens hcut _ ih =>
    refine List.forall_mem_cons.mpr ⟨fun _ => Nat.lt_add_of_pos_right (byteLength_pos ?_), ih⟩
    rintro rfl
    exact (Lexeme.first_text_append_rest c cs).2 (congrArg Lexeme.Cut.text hcut)

/-- The tokens follow one another, and **none of them is empty**. -/
structure Solid (tokens : List Token) : Prop where
  /-- They follow one another. -/
  consecutive : Consecutive tokens
  /-- None is empty. -/
  start_lt_stop : ∀ t ∈ tokens, t.span.start < t.span.stop

theorem Solid.part {tokens part : List Token} (h : Solid tokens) (hpart : part <:+: tokens) :
    Solid part :=
  ⟨h.consecutive.sublist hpart.sublist, fun t ht => h.start_lt_stop t (hpart.subset ht)⟩

/-- The two nodes **stand apart**: one of them has come to its end before the other begins. -/
def Node.Apart (a b : Node) : Prop :=
  a.span.stop ≤ b.span.start ∨ b.span.stop ≤ a.span.start

section Places

variable {nodes : List Node} {tokens : List Token} {node node' root root' : Node} {k j : Nat}

/-- The span of a node that is spelled by such tokens **is not empty**. -/
theorem Node.Spelled.start_lt_stop (h : node.Spelled tokens) (htokens : Solid tokens) :
    node.span.start < node.span.stop := by
  have hcovers := h.covers htokens.consecutive
  obtain ⟨t, ht, -⟩ := hcovers.first
  have hmem := List.mem_of_mem_head? ht
  obtain ⟨hstart, hstop⟩ := hcovers.around htokens.consecutive hmem
  have hpos := htokens.start_lt_stop t hmem
  omega

/-- What a node encloses **lies inside** its span. -/
theorem Node.Encloses.inside (h : root.Encloses k node) (hroot : root.Spelled tokens)
    (htokens : Solid tokens) :
    root.span.start ≤ node.span.start ∧ node.span.stop ≤ root.span.stop := by
  obtain ⟨part, hpart, hspelled⟩ := h.exists_infix hroot
  have hcovers := hspelled.covers (htokens.part hpart).consecutive
  exact (hroot.covers htokens.consecutive).inside htokens.consecutive hpart hcovers

/-- What nodes that stand side by side enclose **stands apart**. -/
theorem SpelledInOrder.apart_of_encloses (h : SpelledInOrder nodes tokens) (htokens : Solid tokens)
    (hroot : root ∈ nodes) (hroot' : root' ∈ nodes) (hne : root ≠ root')
    (hk : root.Encloses k node) (hj : root'.Encloses j node') : node.Apart node' := by
  have hinside : ∀ {r i n}, r ∈ nodes → r.Encloses i n →
      r.span.start ≤ n.span.start ∧ n.span.stop ≤ r.span.stop := by
    intro r i n hr hi
    obtain ⟨part, hpart, hspelled⟩ := h.exists_infix hr
    exact hi.inside hspelled (htokens.part hpart)
  obtain ⟨hstart, hstop⟩ := hinside hroot hk
  obtain ⟨hstart', hstop'⟩ := hinside hroot' hj
  have hsymm : Std.Symm Node.Apart := ⟨fun _ _ => Or.symm⟩
  have hpairs : nodes.Pairwise Node.Apart := (h.pairwise htokens.consecutive).imp .inl
  have hroots : root.Apart root' := hpairs.forall hroot hroot' hne
  unfold Node.Apart at *
  omega

/-- Nodes that stand side by side **enclose no node together**. -/
theorem SpelledInOrder.eq_of_encloses (h : SpelledInOrder nodes tokens) (htokens : Solid tokens)
    (hroot : root ∈ nodes) (hroot' : root' ∈ nodes) (hk : root.Encloses k node)
    (hj : root'.Encloses j node) : root = root' := by
  by_contra hne
  obtain ⟨part, hpart, hspelled⟩ := h.exists_infix hroot
  obtain ⟨part', hpart', hspelled'⟩ := hk.exists_infix hspelled
  have hpos := hspelled'.start_lt_stop ((htokens.part hpart).part hpart')
  -- the node would stand apart from itself
  rcases h.apart_of_encloses htokens hroot hroot' hne hk hj with hapart | hapart <;> omega

/-- **There is one way down to a node**, and so one number of blocks on the way. -/
theorem Node.Encloses.unique (hk : root.Encloses k node) (hroot : root.Spelled tokens)
    (htokens : Solid tokens) (hj : root.Encloses j node) : k = j := by
  induction hk generalizing tokens j with
  | refl =>
    cases hj with
    | refl => rfl
    | child hchild h => exact absurd h (not_of_mem_children hchild)
  | @child root child k node hchild h ih =>
    cases hj with
    | refl => exact absurd h (not_of_mem_children hchild)
    | child hchild' h' =>
      obtain rfl := hroot.children.eq_of_encloses htokens hchild hchild' h h'
      obtain ⟨part, hpart, hspelled⟩ := hroot.children.exists_infix hchild
      rw [ih hspelled (htokens.part hpart) h']

/-- Of two nodes that a node encloses, **one encloses the other, or they stand apart**. -/
theorem Node.Encloses.nested_or_apart (hk : root.Encloses k node) (hroot : root.Spelled tokens)
    (htokens : Solid tokens) (hj : root.Encloses j node') :
    (∃ i, node.Encloses i node') ∨ (∃ i, node'.Encloses i node) ∨ node.Apart node' := by
  induction hk generalizing tokens j with
  | refl => exact .inl ⟨j, hj⟩
  | @child root child k node hchild h ih =>
    cases hj with
    | refl => exact .inr (.inl ⟨_, .child hchild h⟩)
    | @child _ child' j _ hchild' h' =>
      by_cases heq : child = child'
      · -- the two ways down go on together
        subst heq
        obtain ⟨part, hpart, hspelled⟩ := hroot.children.exists_infix hchild
        exact ih hspelled (htokens.part hpart) h'
      · exact .inr (.inr (hroot.children.apart_of_encloses htokens hchild hchild' heq h h'))

end Places

/-- The statements of a program that is read from a source are **spelled in order**. -/
theorem Program.exists_spelledInOrder {source : String} {p : Program}
    (hp : Program.ofSource source = .ok p) :
    ∃ tokens, SpelledInOrder (p.statements.map .stmt) tokens ∧ Solid tokens := by
  obtain ⟨body, stop, hscanned, hspelled⟩ := Program.exists_scanned hp
  obtain ⟨taken, heq, hstatements⟩ := hspelled.spread (Nat.le_refl _)
  obtain rfl := List.append_cancel_right heq
  obtain ⟨taken, heq, -, hkinds⟩ := hspelled.takes
  obtain rfl := List.append_cancel_right heq
  exact ⟨body, hstatements, hscanned.consecutive.1.sublist (List.sublist_append_left ..),
    fun t ht => hscanned.start_lt_stop t (List.mem_append_left _ ht) (hkinds t ht)⟩

namespace Program.HasAt

variable {source : String} {p : Program} {node node' : Node} {k j : Nat}

/-- A node of a program that is read from a source **is spelled** by some of its tokens. -/
theorem exists_spelled (hp : Program.ofSource source = .ok p) (h : p.HasAt k node) :
    ∃ tokens, node.Spelled tokens ∧ Solid tokens := by
  obtain ⟨tokens, hstatements, htokens⟩ := Program.exists_spelledInOrder hp
  obtain ⟨s, hs, h⟩ := h
  obtain ⟨part, hpart, hspelled⟩ := hstatements.exists_infix (List.mem_map_of_mem hs)
  obtain ⟨part', hpart', hspelled'⟩ := h.exists_infix hspelled
  exact ⟨part', hspelled', (htokens.part hpart).part hpart'⟩

/-- **One number of blocks** is around a node of a program that is read from a source. -/
theorem unique (hp : Program.ofSource source = .ok p) (hk : p.HasAt k node) (hj : p.HasAt j node) :
    k = j := by
  obtain ⟨tokens, hstatements, htokens⟩ := Program.exists_spelledInOrder hp
  obtain ⟨s, hs, hk⟩ := hk
  obtain ⟨s', hs', hj⟩ := hj
  have hmem : Node.stmt s ∈ p.statements.map .stmt := List.mem_map_of_mem hs
  have heq := hstatements.eq_of_encloses htokens hmem (List.mem_map_of_mem hs') hk hj
  obtain ⟨part, hpart, hspelled⟩ := hstatements.exists_infix hmem
  exact hk.unique hspelled (htokens.part hpart) (heq ▸ hj)

/-- Of two nodes of a program that is read from a source, **one encloses the other, or they stand
apart**. -/
theorem nested_or_apart (hp : Program.ofSource source = .ok p) (hk : p.HasAt k node)
    (hj : p.HasAt j node') :
    (∃ i, node.Encloses i node') ∨ (∃ i, node'.Encloses i node) ∨ node.Apart node' := by
  obtain ⟨tokens, hstatements, htokens⟩ := Program.exists_spelledInOrder hp
  obtain ⟨s, hs, hk⟩ := hk
  obtain ⟨s', hs', hj⟩ := hj
  have hmem : Node.stmt s ∈ p.statements.map .stmt := List.mem_map_of_mem hs
  by_cases heq : Node.stmt s = .stmt s'
  · obtain ⟨part, hpart, hspelled⟩ := hstatements.exists_infix hmem
    exact hk.nested_or_apart hspelled (htokens.part hpart) (heq ▸ hj)
  · exact .inr (.inr (hstatements.apart_of_encloses htokens hmem (List.mem_map_of_mem hs') heq
      hk hj))

end Program.HasAt

/-! ### How far in a node can be -/

/-- What the node encloses is **so many blocks further in, at most**. -/
def Node.DepthLe (n : Nat) (node : Node) : Prop :=
  ∀ k inner, node.Encloses k inner → k ≤ n

/-- The node of a phrase, or each of its outermost nodes, **has no more levels of blocks** than so
many; a block has one at least. -/
def Phrase.DepthLe (n : Nat) : Phrase → Prop
  | block b => 0 < n ∧ (Node.block b).DepthLe n
  | bare s | statement s => (Node.stmt s).DepthLe n
  | statements ss => ∀ s ∈ ss, (Node.stmt s).DepthLe n
  | _ => True

section Depth

variable {n : Nat} {node : Node}

theorem Node.DepthLe.of_children
    (h : ∀ child ∈ node.children, ∃ m, node.blocksTo child + m ≤ n ∧ child.DepthLe m) :
    node.DepthLe n := by
  intro k inner hinner
  cases hinner with
  | refl => exact Nat.zero_le n
  | child hchild hinner =>
    obtain ⟨m, hm, hdepth⟩ := h _ hchild
    exact (Nat.add_le_add_left (hdepth _ _ hinner) _).trans hm

theorem Node.exists_expr_of_mem_children {e : Expr} {child : Node}
    (h : child ∈ (Node.expr e).children) : ∃ e', child = .expr e' := by
  cases e with
  | call f args span =>
    have hall : child ∈ (f :: args).map expr := h
    obtain ⟨e', -, rfl⟩ := List.mem_map.mp hall
    exact ⟨e', rfl⟩
  | literal | name => cases h
  | _ =>
    simp only [children, List.mem_cons, List.not_mem_nil, or_false] at h
    grind

/-- **No block is in an expression.** -/
theorem Expr.depthLe_zero (e : Expr) : (Node.expr e).DepthLe 0 := by
  intro k inner h
  generalize hroot : Node.expr e = root at h
  induction h generalizing e with
  | refl => exact Nat.le_refl 0
  | child hchild _ ih =>
    subst hroot
    obtain ⟨e', rfl⟩ := Node.exists_expr_of_mem_children hchild
    rw [Node.blocksTo_expr, Nat.zero_add]
    exact ih e' rfl

end Depth

/-- **Blocks nest no deeper than the levels that there are.** -/
theorem Derives.depthLe {φ : Phrase} {n : Nat} {ts rest : List Token} (h : Derives n φ ts rest) :
    φ.DepthLe n := by
  induction h with
  | declare => exact .of_children nofun
  | declareAs _ _ | print _ _ | exit _ _ | expressionAlone _ _ _ =>
    refine .of_children fun child hchild => ?_
    obtain rfl := List.mem_singleton.mp hchild
    exact ⟨0, Nat.zero_le _, Expr.depthLe_zero _⟩
  | @conditional n _ _ _ _ _ _ _ _ _ ihb =>
    refine .of_children fun child hchild => ?_
    simp only [Node.children, List.mem_cons, List.not_mem_nil, or_false] at hchild
    rcases hchild with rfl | rfl
    · exact ⟨0, Nat.zero_le _, Expr.depthLe_zero _⟩
    · exact ⟨n, Nat.le_of_eq (Nat.zero_add n), ihb.2⟩
  | @alternative n _ _ _ _ _ _ _ _ _ _ _ _ _ ihb ihc =>
    refine .of_children fun child hchild => ?_
    simp only [Node.children, List.mem_cons, List.not_mem_nil, or_false] at hchild
    rcases hchild with rfl | rfl | rfl
    · exact ⟨0, Nat.zero_le _, Expr.depthLe_zero _⟩
    · exact ⟨n, Nat.le_of_eq (Nat.zero_add n), ihb.2⟩
    · exact ⟨n, Nat.le_of_eq (Nat.zero_add n), ihc.2⟩
  | @loop n _ _ _ _ _ _ _ _ _ ihb =>
    refine .of_children fun child hchild => ?_
    simp only [Node.children, List.mem_cons, List.not_mem_nil, or_false] at hchild
    rcases hchild with rfl | rfl
    · exact ⟨0, ihb.1, Expr.depthLe_zero _⟩
    · exact ⟨n, Nat.le_of_eq (Nat.zero_add n), ihb.2⟩
  | @function n _ _ _ _ _ _ _ _ _ _ _ _ _ ihb | @blockAlone n _ _ _ _ ihb =>
    refine .of_children fun child hchild => ?_
    obtain rfl := List.mem_singleton.mp hchild
    exact ⟨n, Nat.le_of_eq (Nat.zero_add n), ihb.2⟩
  | plain _ ih | terminated _ ih => exact ih
  | @block n ss _ _ _ _ _ ih =>
    refine ⟨Nat.succ_pos n, .of_children fun child hchild => ?_⟩
    obtain ⟨s, hs, rfl⟩ := List.mem_map.mp hchild
    exact ⟨n, Nat.le_of_eq (Nat.add_comm 1 n), ih s hs⟩
  | noStatements => exact nofun
  | moreStatements _ _ ih ihs => exact List.forall_mem_cons.mpr ⟨ih, ihs⟩
  | _ => trivial

/-- **No node has more blocks around it** than the limit on nesting. -/
theorem Program.HasAt.le_nestingLimit {source : String} {p : Program}
    (hp : Program.ofSource source = .ok p) {node : Node} {k : Nat} (h : p.HasAt k node) :
    k ≤ nestingLimit := by
  obtain ⟨body, stop, -, hspelled⟩ := Program.exists_scanned hp
  obtain ⟨s, hs, h⟩ := h
  exact hspelled.depthLe s hs k node h

end ScopeScript
