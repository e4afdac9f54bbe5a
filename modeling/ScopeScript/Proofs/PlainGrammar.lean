import ScopeScript.Proofs.ParserSound

/-!
# The plain grammar

Which lists of tokens are programs at all, trees, spans and nesting left aside. The rules are those
of `ScopeScript.Derives`, but **a phrase is only a list of kinds of tokens**, and nothing is said of
what follows it: an expression need not go on as long as it can, so that a list may be a program in
several ways, as `f (x)` is both a call and two statements.

What those rules derive is a program in this sense (`ScopeScript.Accepted.of_derives`).

Expressions are closed under everything that may stand before or behind an expression:
`ScopeScript.Generates.sign`, `ScopeScript.Generates.callBehind` and
`ScopeScript.Generates.join`. For the levels of operators, this is to say that an operand that comes
later finds its place in the tree that was there.
-/

namespace ScopeScript

/-! ### Rules -/

/-- A **nonterminal**. -/
inductive Nonterminal where
  /-- A literal, a name or an expression in parentheses. -/
  | primary
  /-- A primary expression with argument lists. -/
  | call
  /-- Unary operators before a call. -/
  | unary
  /-- Operands joined by infix operators of the given level or of tighter ones. -/
  | level (l : Nat)
  /-- A whole expression. -/
  | expression
  /-- Expressions separated by commas, at least one. -/
  | expressions
  /-- The arguments of a call. -/
  | arguments
  /-- Names separated by commas, at least one. -/
  | names
  /-- The parameters of a procedure. -/
  | parameters
  /-- Statements between braces. -/
  | block
  /-- A statement without its semicolon. -/
  | bare
  /-- A statement. -/
  | statement
  /-- Statements one after the other. -/
  | statements

/-- A token that is **a primary expression by itself**. -/
def Token.Kind.isPrimary : Token.Kind → Bool
  | number _ | text _ | identifier _ | keyword .print => true
  | _ => false

/-- **The plain rules**: tokens of these kinds are such a phrase. -/
inductive Generates : Nonterminal → List Token.Kind → Prop
  /-- A number, a string, a truth value, a name, or the name of the builtin procedure. -/
  | single {k} (h : k.isPrimary = true) : Generates .primary [k]
  /-- An expression in parentheses. -/
  | parentheses {u} (h : Generates .expression u) :
    Generates .primary (.mark .leftParen :: u ++ [.mark .rightParen])
  /-- A callee alone. -/
  | callee {u} (h : Generates .primary u) : Generates .call u
  /-- A callee and its arguments. -/
  | application {u v} (hf : Generates .call u) (hargs : Generates .arguments v) :
    Generates .call (u ++ .mark .leftParen :: v ++ [.mark .rightParen])
  /-- No unary operator. -/
  | unsigned {u} (h : Generates .call u) : Generates .unary u
  /-- A unary operator. -/
  | signed {k op u} (hop : k.unaryOp? = some op) (h : Generates .unary u) :
    Generates .unary (k :: u)
  /-- The tightest level. -/
  | tightest {u} (h : Generates .unary u) : Generates (.level InfixOp.levelCount) u
  /-- No operator of the level. -/
  | operand {l u} (hl : l < InfixOp.levelCount) (h : Generates (.level (l + 1)) u) :
    Generates (.level l) u
  /-- An operator of the level. -/
  | operation {k op u v} (hop : k.infixOp? = some op) (ha : Generates (.level op.level) u)
    (hb : Generates (.level (op.level + 1)) v) : Generates (.level op.level) (u ++ k :: v)
  /-- An expression. -/
  | expression {u} (h : Generates (.level 0) u) : Generates .expression u
  /-- One expression. -/
  | oneExpression {u} (h : Generates .expression u) : Generates .expressions u
  /-- More expressions. -/
  | moreExpressions {u v} (h : Generates .expression u) (hs : Generates .expressions v) :
    Generates .expressions (u ++ .mark .comma :: v)
  /-- No arguments. -/
  | noArguments : Generates .arguments []
  /-- Some arguments. -/
  | someArguments {u} (h : Generates .expressions u) : Generates .arguments u
  /-- One name. -/
  | oneName {name} : Generates .names [.identifier name]
  /-- More names. -/
  | moreNames {name u} (h : Generates .names u) :
    Generates .names (.identifier name :: .mark .comma :: u)
  /-- No parameters. -/
  | noParameters : Generates .parameters []
  /-- Some parameters. -/
  | someParameters {u} (h : Generates .names u) : Generates .parameters u
  /-- A declaration of a variable. -/
  | declare {name} : Generates .bare [.keyword .declare, .identifier name]
  /-- A declaration with a first value. -/
  | declareAs {name u} (h : Generates .expression u) :
    Generates .bare (.keyword .declare :: .identifier name :: .mark .assign :: u)
  /-- A print statement. -/
  | print {u} (h : Generates .expression u) : Generates .bare (.keyword .print :: u)
  /-- A conditional with one branch. -/
  | conditional {u v} (htest : Generates .expression u) (hb : Generates .block v) :
    Generates .bare (.keyword .ifK :: u ++ v)
  /-- A conditional with two branches. -/
  | alternative {u v w} (htest : Generates .expression u) (hb : Generates .block v)
    (hc : Generates .block w) : Generates .bare (.keyword .ifK :: u ++ v ++ .keyword .elseK :: w)
  /-- A loop. -/
  | loop {u v} (htest : Generates .expression u) (hb : Generates .block v) :
    Generates .bare (.keyword .whileK :: u ++ v)
  /-- A declaration of a procedure. -/
  | function {name u v} (hparams : Generates .parameters u) (hb : Generates .block v) :
    Generates .bare (.keyword .function :: .identifier name :: .mark .leftParen :: u ++
      .mark .rightParen :: v)
  /-- A return statement. -/
  | exit {u} (h : Generates .expression u) : Generates .bare (.keyword .returnK :: u)
  /-- A block by itself. -/
  | blockAlone {u} (h : Generates .block u) : Generates .bare u
  /-- An expression by itself. **What begins with the word for printing is a print statement.** -/
  | expressionAlone {u} (h : Generates .expression u)
    (hprint : u.head? ≠ some (.keyword .print)) : Generates .bare u
  /-- A statement without a semicolon. -/
  | plain {u} (h : Generates .bare u) : Generates .statement u
  /-- A statement with a semicolon. -/
  | terminated {u} (h : Generates .bare u) : Generates .statement (u ++ [.mark .semicolon])
  /-- A block. -/
  | block {u} (h : Generates .statements u) :
    Generates .block (.mark .leftBrace :: u ++ [.mark .rightBrace])
  /-- No statements. -/
  | noStatements : Generates .statements []
  /-- One statement after another. -/
  | moreStatements {u v} (hs : Generates .statement u) (hss : Generates .statements v) :
    Generates .statements (u ++ v)

/-- **The grammar accepts the tokens**: they are statements, one after the other. -/
def Accepted (tokens : List Token) : Prop :=
  Generates .statements (tokens.map Token.kind)

/-! ### What is derived is generated -/

/-- The nonterminal of a phrase. -/
def Phrase.nonterminal : Phrase → Nonterminal
  | primary _ => .primary
  | call _ => .call
  | unary _ => .unary
  | level l _ => .level l
  | expression _ => .expression
  | expressions _ => .expressions
  | arguments _ => .arguments
  | names _ => .names
  | parameters _ => .parameters
  | block _ => .block
  | bare _ => .bare
  | statement _ => .statement
  | statements _ => .statements

/-- **By the plain rules**, the tokens of the first list before those of the second are such a
phrase. -/
def Plainly (p : Nonterminal) (ts rest : List Token) : Prop :=
  ∃ u, Generates p u ∧ ts.map Token.kind = u ++ rest.map Token.kind

namespace Plainly

variable {p q r : Nonterminal} {ts mid rest : List Token}

/-- A rule with **one part behind certain tokens**. -/
theorem behind (front : List Token) (h : Plainly p ts rest)
    (rule : ∀ u, Generates p u → Generates q (front.map Token.kind ++ u)) :
    Plainly q (front ++ ts) rest := by
  obtain ⟨u, hu, heq⟩ := h
  exact ⟨_, rule u hu, by rw [List.map_append, heq, List.append_assoc]⟩

/-- A rule with **one part between certain tokens**. -/
theorem between (front close : List Token) (h : Plainly p ts (close ++ rest))
    (rule : ∀ u, Generates p u →
      Generates q (front.map Token.kind ++ u ++ close.map Token.kind)) :
    Plainly q (front ++ ts) rest := by
  obtain ⟨u, hu, heq⟩ := h
  refine ⟨_, rule u hu, ?_⟩
  rw [List.map_append, heq, List.map_append, List.append_assoc, List.append_assoc]

/-- A rule with **two parts**, with tokens before and between them. -/
theorem parts (front glue : List Token) (h : Plainly p ts (glue ++ mid)) (h' : Plainly q mid rest)
    (rule : ∀ u v, Generates p u → Generates q v →
      Generates r (front.map Token.kind ++ u ++ (glue.map Token.kind ++ v))) :
    Plainly r (front ++ ts) rest := by
  obtain ⟨u, hu, heq⟩ := h
  obtain ⟨v, hv, heq'⟩ := h'
  refine ⟨_, rule u v hu hv, ?_⟩
  rw [List.map_append, heq, List.map_append, heq']
  simp only [List.append_assoc]

end Plainly

/-- **Tokens that spell a phrase are such a phrase.** -/
theorem Derives.generates {n : Nat} {phrase : Phrase} {ts rest : List Token}
    (h : Derives n phrase ts rest) : Plainly phrase.nonterminal ts rest := by
  induction h with
  | number | text | truth | falsehood | name | builtin => exact ⟨_, .single rfl, rfl⟩
  | parentheses _ ih => exact .between [_] [_] ih fun _ => .parentheses
  | callee _ ih => exact .behind [] ih fun _ => .callee
  | application _ _ ihf ihargs =>
    obtain ⟨u, hu, heq⟩ := ihf
    obtain ⟨v, hv, heq'⟩ := ihargs
    exact ⟨_, .application hu hv, by simp [heq, heq']⟩
  | unsigned _ ih => exact .behind [] ih fun _ => .unsigned
  | signed hop _ ih => exact .behind [_] ih fun _ => .signed hop
  | tightest _ ih => exact .behind [] ih fun _ => .tightest
  | operand hl _ ih => exact .behind [] ih fun _ => .operand hl
  | operation hop _ _ iha ihb => exact .parts [] [_] iha ihb fun _ _ => .operation hop
  | expression _ _ ih => exact .behind [] ih fun _ => .expression
  | oneExpression _ ih => exact .behind [] ih fun _ => .oneExpression
  | moreExpressions _ _ ih ihs => exact .parts [] [_] ih ihs fun _ _ => .moreExpressions
  | noArguments => exact ⟨[], .noArguments, rfl⟩
  | someArguments _ ih => exact .behind [] ih fun _ => .someArguments
  | oneName => exact ⟨_, .oneName, rfl⟩
  | moreNames _ ih => exact .behind [_, _] ih fun _ => .moreNames
  | noParameters => exact ⟨[], .noParameters, rfl⟩
  | someParameters _ ih => exact .behind [] ih fun _ => .someParameters
  | declare => exact ⟨_, .declare, rfl⟩
  | declareAs _ ih => exact .behind [_, _, _] ih fun _ => .declareAs
  | print _ ih => exact .behind [_] ih fun _ => .print
  | conditional _ _ iht ihb => exact .parts [_] [] iht ihb fun _ _ => .conditional
  | alternative _ _ _ iht ihb ihc =>
    obtain ⟨u, hu, heq⟩ := iht
    obtain ⟨v, hv, heq'⟩ := ihb
    obtain ⟨w, hw, heq''⟩ := ihc
    exact ⟨_, .alternative hu hv hw, by simp [heq, heq', heq'']⟩
  | loop _ _ iht ihb => exact .parts [_] [] iht ihb fun _ _ => .loop
  | function _ _ ihp ihb => exact .parts [_, _, _] [_] ihp ihb fun _ _ => .function
  | exit _ ih => exact .behind [_] ih fun _ => .exit
  | blockAlone _ ih => exact .behind [] ih fun _ => .blockAlone
  | @expressionAlone _ _ ts rest _ hprint ih =>
    obtain ⟨u, hu, heq⟩ := ih
    refine ⟨u, .expressionAlone hu fun hhead => hprint ?_, heq⟩
    -- an expression is not empty, so its first token is the first of the list
    obtain ⟨k, u, rfl⟩ := List.exists_cons_of_ne_nil fun hnil : u = [] => by simp [hnil] at hhead
    refine Parser.head?_kind_eq_some.mp ?_
    rw [← List.head?_map, heq]
    exact hhead
  | plain _ ih => exact .behind [] ih fun _ => .plain
  | terminated _ ih => exact .between [] [_] ih fun _ => .terminated
  | block _ ih => exact .between [_] [_] ih fun _ => .block
  | noStatements => exact ⟨[], .noStatements, rfl⟩
  | moreStatements _ _ ih ihs => exact .parts [] [] ih ihs fun _ _ => .moreStatements

/-- **What is spelled by the rules of the parser is accepted.** -/
theorem Accepted.of_derives {n : Nat} {ss : List Stmt} {body : List Token} {span : Span}
    (h : Derives n (.statements ss) (body ++ [⟨.endOfInput, span⟩]) [⟨.endOfInput, span⟩]) :
    Accepted body := by
  obtain ⟨u, hu, heq⟩ := h.generates
  rw [List.map_append] at heq
  rwa [Accepted, List.append_cancel_right heq]

/-! ### What may stand beside an expression -/

namespace Generates

variable {l : Nat} {k : Token.Kind} {u v w : List Token.Kind}

/-- What is of a level is of **every looser** level too. -/
theorem loosen (h : Generates (.level l) u) {l' : Nat} (hle : l' ≤ l)
    (hl : l ≤ InfixOp.levelCount) : Generates (.level l') u := by
  induction hle with
  | refl => exact h
  | step _ ih => exact ih (.operand hl h) (Nat.le_of_succ_le hl)

theorem expression_of_unary (h : Generates .unary u) : Generates .expression u :=
  .expression ((tightest h).loosen (Nat.zero_le _) (Nat.le_refl _))

theorem expression_of_primary (h : Generates .primary u) : Generates .expression u :=
  expression_of_unary (.unsigned (.callee h))

/-- **A unary operator may stand before an expression**: it goes to the first operand. -/
theorem level_sign {op : UnaryOp} (hop : k.unaryOp? = some op) (h : Generates (.level l) u) :
    Generates (.level l) (k :: u) := by
  generalize hp : Nonterminal.level l = p at h
  induction h generalizing l with
  | tightest h =>
    cases hp
    exact .tightest (.signed hop h)
  | operand hl _ ih =>
    cases hp
    exact .operand hl (ih rfl)
  | operation hinfix _ hb iha _ =>
    cases hp
    exact .operation hinfix (iha rfl) hb
  | _ => contradiction

/-- **Arguments may stand behind an expression**: the last operand is called with them. -/
theorem level_callBehind (h : Generates (.level l) u) (hargs : Generates .arguments v) :
    Generates (.level l) (u ++ .mark .leftParen :: v ++ [.mark .rightParen]) := by
  have hunary : ∀ {u}, Generates .unary u →
      Generates .unary (u ++ .mark .leftParen :: v ++ [.mark .rightParen]) := by
    intro u h
    generalize hp : Nonterminal.unary = p at h
    induction h with
    | unsigned h => exact .unsigned (.application h hargs)
    | signed hop _ ih => exact .signed hop (ih hp)
    | _ => contradiction
  generalize hp : Nonterminal.level l = p at h
  induction h generalizing l with
  | tightest h =>
    cases hp
    exact .tightest (hunary h)
  | operand hl _ ih =>
    cases hp
    exact .operand hl (ih rfl)
  | operation hop ha _ _ ihb =>
    cases hp
    have hcall := Generates.operation hop ha (ihb rfl)
    simpa using hcall
  | _ => contradiction

/-- **An operator and an operand may stand behind an expression** of the level of the operator or of
a looser one. Where the operator is of a tighter level, the operand goes to the last operand. -/
theorem level_operatorBehind {op : InfixOp} (hop : k.infixOp? = some op)
    (h : Generates (.level l) u) (hl : l ≤ op.level) (hv : Generates .unary v) :
    Generates (.level l) (u ++ k :: v) := by
  have hoperand : ∀ {l}, l ≤ InfixOp.levelCount → Generates (.level l) v := fun hle =>
    (tightest hv).loosen hle (Nat.le_refl _)
  generalize hp : Nonterminal.level l = p at h
  induction h generalizing l with
  | tightest h =>
    cases hp
    exact absurd op.level_lt (Nat.not_lt_of_le hl)
  | operand hlt h ih =>
    cases hp
    rcases Nat.eq_or_lt_of_le hl with rfl | hlt'
    · exact .operation hop (.operand hlt h) (hoperand hlt)
    · exact .operand hlt (ih hlt' rfl)
  | @operation k' op' a b hop' ha hb _ ihb =>
    cases hp
    rcases Nat.eq_or_lt_of_le hl with heq | hlt'
    · have hab := Generates.operation hop' ha hb
      rw [heq] at hab ⊢
      exact .operation hop hab (hoperand op.level_lt)
    · rw [List.append_assoc]
      exact .operation hop' ha (ihb hlt' rfl)
  | _ => contradiction

/-- **An operator and operands joined by operators of any level may stand behind an expression.** -/
theorem level_join {op : InfixOp} (hop : k.infixOp? = some op) (h : Generates (.level 0) u)
    (hv : Generates (.level l) v) : Generates (.level 0) (u ++ k :: v) := by
  generalize hp : Nonterminal.level l = p at hv
  induction hv generalizing l u k op with
  | tightest hv => exact level_operatorBehind hop h (Nat.zero_le _) hv
  | operand _ _ ih =>
    cases hp
    exact ih hop h rfl
  | operation hop' _ _ iha ihb =>
    cases hp
    -- one operand after the other is put behind
    have ha := iha hop h rfl
    have hb := ihb hop' ha rfl
    simpa using hb
  | _ => contradiction

theorem level_of_expression (h : Generates .expression u) : Generates (.level 0) u := by
  cases h with
  | expression h => exact h

/-- A unary operator may stand **before an expression**. -/
theorem sign {op : UnaryOp} (hop : k.unaryOp? = some op) (h : Generates .expression u) :
    Generates .expression (k :: u) :=
  .expression (level_sign hop (level_of_expression h))

/-- Arguments may stand **behind an expression**. -/
theorem callBehind (h : Generates .expression u) (hargs : Generates .arguments v) :
    Generates .expression (u ++ .mark .leftParen :: v ++ [.mark .rightParen]) :=
  .expression (level_callBehind (level_of_expression h) hargs)

/-- An infix operator may stand **between expressions**. -/
theorem join {op : InfixOp} (hop : k.infixOp? = some op) (h : Generates .expression u)
    (hv : Generates .expression v) : Generates .expression (u ++ k :: v) :=
  .expression (level_join hop (level_of_expression h) (level_of_expression hv))

/-- A block begins with its **brace**. -/
theorem exists_eq_leftBrace (h : Generates .block u) : ∃ v, u = .mark .leftBrace :: v := by
  cases h with
  | block h => exact ⟨_, rfl⟩

/-- An expression has **one token at the least**. -/
theorem ne_nil (h : Generates .expression u) : u ≠ [] := by
  have hne : ∀ {p u}, Generates p u →
      p = .primary ∨ p = .call ∨ p = .unary ∨ (∃ l, p = .level l) ∨ p = .expression → u ≠ [] := by
    intro p u h hp
    induction h with
    | single | parentheses | signed => exact List.cons_ne_nil _ _
    | callee _ ih => exact ih (.inl rfl)
    | application | operation => simp
    | unsigned _ ih => exact ih (.inr (.inl rfl))
    | tightest _ ih => exact ih (.inr (.inr (.inl rfl)))
    | operand _ _ ih | expression _ ih => exact ih (.inr (.inr (.inr (.inl ⟨_, rfl⟩))))
    | _ => simp at hp
  exact hne h (.inr (.inr (.inr (.inr rfl))))

end Generates

end ScopeScript
