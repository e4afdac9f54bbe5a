import ScopeScript.Proofs.Readers

/-!
# The grammar

The grammar of the language, as rules that **derive trees from tokens**. A phrase is a nonterminal
together with its tree, and `ScopeScript.Derives n phrase ts rest` says that the tokens of `ts`
before `rest` spell the phrase, where `n` levels of nesting are left. Every expression, every
operand of a unary operator and every block takes one level.

```
program     := statement* end
statement   := bare ';'?
bare        := 'declare' NAME ('=' expression)?
             | 'print' expression
             | 'if' expression block ('else' block)?
             | 'while' expression block
             | 'function' NAME '(' (NAME (',' NAME)*)? ')' block
             | 'return' expression
             | block
             | expression                     -- not beginning with 'print'
block       := '{' statement* '}'
expression  := level 0                        -- not followed by '(' or an infix operator
level l     := level (l + 1) | level l op (level (l + 1))      -- op of level l
level 6     := unary
unary       := ('-' | '!') unary | call
call        := primary | call '(' (expression (',' expression)*)? ')'
primary     := NUMBER | STRING | 'true' | 'false' | NAME | 'print' | '(' expression ')'
```

The rules say nothing of the order in which alternatives are tried, and of what follows a phrase
only that an expression goes on as long as it can. Trees carry spans, so the rules say which span
each node has.
-/

namespace ScopeScript

open ScopeScript.Parser (NextIs)

/-! ### Phrases and rules -/

/-- A **nonterminal with its tree**. -/
inductive Phrase where
  /-- A literal, a name or an expression in parentheses. -/
  | primary (e : Expr)
  /-- A primary expression with argument lists. -/
  | call (e : Expr)
  /-- Unary operators before a call. -/
  | unary (e : Expr)
  /-- Operands joined by infix operators of the given level or of tighter ones. -/
  | level (l : Nat) (e : Expr)
  /-- A whole expression. -/
  | expression (e : Expr)
  /-- Expressions separated by commas, at least one. -/
  | expressions (es : List Expr)
  /-- The arguments of a call. -/
  | arguments (es : List Expr)
  /-- Names separated by commas, at least one. -/
  | names (names : List String)
  /-- The parameters of a procedure. -/
  | parameters (names : List String)
  /-- Statements between braces. -/
  | block (b : Block)
  /-- A statement without its semicolon. -/
  | bare (s : Stmt)
  /-- A statement. -/
  | statement (s : Stmt)
  /-- Statements one after the other. -/
  | statements (ss : List Stmt)

/-- **Nothing continues an expression** here: neither an argument list nor an infix operator. -/
def Complete (rest : List Token) : Prop :=
  ∀ t ∈ rest.head?, t.kind ≠ .mark .leftParen ∧ t.kind.infixOp? = none

/-- Nothing continues an expression **of the given level** here: neither an argument list nor an
infix operator of that level or of a tighter one. -/
def Closed (level : Nat) (rest : List Token) : Prop :=
  ∀ t ∈ rest.head?, t.kind ≠ .mark .leftParen ∧ ∀ op, t.kind.infixOp? = some op → op.level < level

theorem closed_zero_iff {rest : List Token} : Closed 0 rest ↔ Complete rest := by
  simp [Closed, Complete, Option.eq_none_iff_forall_ne_some]

/-- **The rules of the grammar**: with `n` levels of nesting left, the tokens of the first list
before those of the second spell the phrase. -/
inductive Derives : Nat → Phrase → List Token → List Token → Prop
  /-- A number. -/
  | number {n x span rest} :
    Derives n (.primary (.literal (.number x) span)) (⟨.number x, span⟩ :: rest) rest
  /-- A string. -/
  | text {n s span rest} :
    Derives n (.primary (.literal (.text s) span)) (⟨.text s, span⟩ :: rest) rest
  /-- Truth. -/
  | truth {n span rest} :
    Derives n (.primary (.literal (.boolean true) span)) (⟨.identifier "true", span⟩ :: rest) rest
  /-- Falsehood. -/
  | falsehood {n span rest} :
    Derives n (.primary (.literal (.boolean false) span)) (⟨.identifier "false", span⟩ :: rest) rest
  /-- Any other name. -/
  | name {n id span rest} (htrue : id ≠ "true") (hfalse : id ≠ "false") :
    Derives n (.primary (.name id span)) (⟨.identifier id, span⟩ :: rest) rest
  /-- The name of the builtin procedure. -/
  | builtin {n span rest} :
    Derives n (.primary (.name Keyword.print.spelling span)) (⟨.keyword .print, span⟩ :: rest) rest
  /-- Parentheses leave no node. -/
  | parentheses {n e opening closing ts rest}
    (h : Derives n (.expression e) ts (⟨.mark .rightParen, closing⟩ :: rest)) :
    Derives n (.primary (e.withSpan (opening.merge closing))) (⟨.mark .leftParen, opening⟩ :: ts)
      rest
  /-- A callee alone. -/
  | callee {n e ts rest} (h : Derives n (.primary e) ts rest) : Derives n (.call e) ts rest
  /-- A callee and its arguments. -/
  | application {n f args opening closing ts mid rest}
    (hf : Derives n (.call f) ts (⟨.mark .leftParen, opening⟩ :: mid))
    (hargs : Derives n (.arguments args) mid (⟨.mark .rightParen, closing⟩ :: rest)) :
    Derives n (.call (.call f args (f.span.merge closing))) ts rest
  /-- No unary operator. -/
  | unsigned {n e ts rest} (h : Derives n (.call e) ts rest) : Derives n (.unary e) ts rest
  /-- A unary operator: its operand takes a level of nesting. -/
  | signed {n e kind op span ts rest} (hop : kind.unaryOp? = some op)
    (h : Derives n (.unary e) ts rest) :
    Derives (n + 1) (.unary (.unary op e (span.merge e.span))) (⟨kind, span⟩ :: ts) rest
  /-- The tightest level. -/
  | tightest {n e ts rest} (h : Derives n (.unary e) ts rest) :
    Derives n (.level InfixOp.levelCount e) ts rest
  /-- No operator of the level. -/
  | operand {n l e ts rest} (hl : l < InfixOp.levelCount)
    (h : Derives n (.level (l + 1) e) ts rest) :
    Derives n (.level l e) ts rest
  /-- An operator of the level: **it groups to the left**. -/
  | operation {n a b kind op span ts mid rest} (hop : kind.infixOp? = some op)
    (ha : Derives n (.level op.level a) ts (⟨kind, span⟩ :: mid))
    (hb : Derives n (.level (op.level + 1) b) mid rest) :
    Derives n (.level op.level (op.node a b)) ts rest
  /-- **An expression goes on as long as it can**, and takes a level of nesting. -/
  | expression {n e ts rest} (h : Derives n (.level 0 e) ts rest) (hrest : Complete rest) :
    Derives (n + 1) (.expression e) ts rest
  /-- One expression. -/
  | oneExpression {n e ts rest} (h : Derives n (.expression e) ts rest) :
    Derives n (.expressions [e]) ts rest
  /-- More expressions. -/
  | moreExpressions {n e es span ts mid rest}
    (h : Derives n (.expression e) ts (⟨.mark .comma, span⟩ :: mid))
    (hes : Derives n (.expressions es) mid rest) : Derives n (.expressions (e :: es)) ts rest
  /-- No arguments. -/
  | noArguments {n ts} : Derives n (.arguments []) ts ts
  /-- Some arguments. -/
  | someArguments {n es ts rest} (h : Derives n (.expressions es) ts rest) :
    Derives n (.arguments es) ts rest
  /-- One name. -/
  | oneName {n name span rest} : Derives n (.names [name]) (⟨.identifier name, span⟩ :: rest) rest
  /-- More names. -/
  | moreNames {n name names span comma ts rest} (h : Derives n (.names names) ts rest) :
    Derives n (.names (name :: names)) (⟨.identifier name, span⟩ :: ⟨.mark .comma, comma⟩ :: ts)
      rest
  /-- No parameters. -/
  | noParameters {n ts} : Derives n (.parameters []) ts ts
  /-- Some parameters. -/
  | someParameters {n names ts rest} (h : Derives n (.names names) ts rest) :
    Derives n (.parameters names) ts rest
  /-- A declaration of a variable. -/
  | declare {n name word span rest} :
    Derives n (.bare (.declare name none (word.merge span)))
      (⟨.keyword .declare, word⟩ :: ⟨.identifier name, span⟩ :: rest) rest
  /-- A declaration with a first value. -/
  | declareAs {n name e word span sign ts rest} (h : Derives n (.expression e) ts rest) :
    Derives n (.bare (.declare name (some e) (word.merge e.span)))
      (⟨.keyword .declare, word⟩ :: ⟨.identifier name, span⟩ :: ⟨.mark .assign, sign⟩ :: ts) rest
  /-- A print statement. -/
  | print {n e word ts rest} (h : Derives n (.expression e) ts rest) :
    Derives n (.bare (.print e (word.merge e.span))) (⟨.keyword .print, word⟩ :: ts) rest
  /-- A conditional with one branch. -/
  | conditional {n test b word ts mid rest} (htest : Derives n (.expression test) ts mid)
    (hb : Derives n (.block b) mid rest) :
    Derives n (.bare (.conditional test b none (word.merge b.span))) (⟨.keyword .ifK, word⟩ :: ts)
      rest
  /-- A conditional with two branches. -/
  | alternative {n test b c word span ts mid mid' rest}
    (htest : Derives n (.expression test) ts mid)
    (hb : Derives n (.block b) mid (⟨.keyword .elseK, span⟩ :: mid'))
    (hc : Derives n (.block c) mid' rest) :
    Derives n (.bare (.conditional test b (some c) (word.merge c.span)))
      (⟨.keyword .ifK, word⟩ :: ts) rest
  /-- A loop. -/
  | loop {n test b word ts mid rest} (htest : Derives n (.expression test) ts mid)
    (hb : Derives n (.block b) mid rest) :
    Derives n (.bare (.loop test b (word.merge b.span))) (⟨.keyword .whileK, word⟩ :: ts) rest
  /-- A declaration of a procedure. -/
  | function {n name params b word span opening closing ts mid rest}
    (hparams : Derives n (.parameters params) ts (⟨.mark .rightParen, closing⟩ :: mid))
    (hb : Derives n (.block b) mid rest) :
    Derives n (.bare (.function name params b (word.merge b.span)))
      (⟨.keyword .function, word⟩ :: ⟨.identifier name, span⟩ :: ⟨.mark .leftParen, opening⟩ :: ts)
      rest
  /-- A return statement. -/
  | exit {n e word ts rest} (h : Derives n (.expression e) ts rest) :
    Derives n (.bare (.exit e (word.merge e.span))) (⟨.keyword .returnK, word⟩ :: ts) rest
  /-- A block by itself. -/
  | blockAlone {n b ts rest} (h : Derives n (.block b) ts rest) :
    Derives n (.bare (.block b)) ts rest
  /-- An expression by itself. **What begins with the word for printing is a print statement.** -/
  | expressionAlone {n e ts rest} (h : Derives n (.expression e) ts rest)
    (hprint : ¬ NextIs (.keyword .print) ts) : Derives n (.bare (.expression e)) ts rest
  /-- A statement without a semicolon. -/
  | plain {n s ts rest} (h : Derives n (.bare s) ts rest) : Derives n (.statement s) ts rest
  /-- A statement with a semicolon. -/
  | terminated {n s span ts rest} (h : Derives n (.bare s) ts (⟨.mark .semicolon, span⟩ :: rest)) :
    Derives n (.statement s) ts rest
  /-- A block takes a level of nesting. -/
  | block {n ss opening closing ts rest}
    (h : Derives n (.statements ss) ts (⟨.mark .rightBrace, closing⟩ :: rest)) :
    Derives (n + 1) (.block (.mk ss (opening.merge closing))) (⟨.mark .leftBrace, opening⟩ :: ts)
      rest
  /-- No statements. -/
  | noStatements {n ts} : Derives n (.statements []) ts ts
  /-- One statement after another. -/
  | moreStatements {n s ss ts mid rest} (hs : Derives n (.statement s) ts mid)
    (hss : Derives n (.statements ss) mid rest) : Derives n (.statements (s :: ss)) ts rest

/-- **The tokens spell the program**: statements up to the end of the input. -/
def Program.Spelled (p : Program) (tokens : List Token) : Prop :=
  ∃ span, Derives nestingLimit (.statements p.statements) tokens [⟨.endOfInput, span⟩]

/-! ### Tokens taken -/

/-- **At least so many tokens are taken**, none of which is the end of the input. -/
def Takes (k : Nat) (ts rest : List Token) : Prop :=
  ∃ taken, ts = taken ++ rest ∧ k ≤ taken.length ∧ ∀ t ∈ taken, t.kind ≠ .endOfInput

namespace Takes

variable {k k' : Nat} {kind : Token.Kind} {span : Span} {ts mid rest : List Token}

theorem none (ts : List Token) : Takes 0 ts ts :=
  ⟨[], rfl, Nat.le_refl _, nofun⟩

theorem trans (h : Takes k ts mid) (h' : Takes k' mid rest) : Takes (k' + k) ts rest := by
  obtain ⟨taken, rfl, hle, hend⟩ := h
  obtain ⟨taken', rfl, hle', hend'⟩ := h'
  refine ⟨taken ++ taken', (List.append_assoc ..).symm, ?_, fun t ht => ?_⟩
  · rw [List.length_append]
    omega
  · exact (List.mem_append.mp ht).elim (hend t) (hend' t)

/-- What is taken later need not be counted. -/
theorem andThen (h : Takes k ts mid) (h' : Takes k' mid rest) : Takes k ts rest := by
  obtain ⟨taken, hts, hle, hend⟩ := h.trans h'
  exact ⟨taken, hts, by omega, hend⟩

theorem one (hkind : kind ≠ .endOfInput) : Takes 1 (⟨kind, span⟩ :: ts) ts :=
  ⟨[⟨kind, span⟩], rfl, Nat.le_refl _, List.forall_mem_singleton.mpr hkind⟩

/-- A token is taken last. -/
theorem snoc (h : Takes k ts (⟨kind, span⟩ :: rest)) (hkind : kind ≠ .endOfInput) :
    Takes k ts rest :=
  h.andThen (one hkind)

/-- A token is taken first, and something after it. -/
theorem after (h : Takes k ts rest) (hkind : kind ≠ .endOfInput) :
    Takes 1 (⟨kind, span⟩ :: ts) rest :=
  (one hkind).andThen h

theorem length_le (h : Takes k ts rest) : k + rest.length ≤ ts.length := by
  obtain ⟨taken, rfl, hle, -⟩ := h
  rw [List.length_append]
  omega

end Takes

/-- How many tokens a phrase takes **at the least**: one for each item of a list, one for anything
else. -/
def Phrase.size : Phrase → Nat
  | expressions es => es.length
  | arguments es => es.length
  | names ns => ns.length
  | parameters ns => ns.length
  | statements ss => ss.length
  | _ => 1

theorem Token.Kind.ne_endOfInput_of_infixOp? {kind : Token.Kind} {op : InfixOp}
    (h : kind.infixOp? = some op) : kind ≠ .endOfInput := by
  rintro rfl
  contradiction

theorem Token.Kind.ne_endOfInput_of_unaryOp? {kind : Token.Kind} {op : UnaryOp}
    (h : kind.unaryOp? = some op) : kind ≠ .endOfInput := by
  rintro rfl
  contradiction

/-- **A phrase takes tokens off the front**, and never the end of the input. -/
theorem Derives.takes {n : Nat} {phrase : Phrase} {ts rest : List Token}
    (h : Derives n phrase ts rest) : Takes phrase.size ts rest := by
  induction h with
  | number | text | truth | falsehood | name | builtin | oneName => exact .one nofun
  | parentheses _ ih => exact (ih.snoc nofun).after nofun
  | callee _ ih | unsigned _ ih | tightest _ ih | operand _ _ ih | expression _ _ ih => exact ih
  | application _ _ ihf ihargs => exact (ihf.snoc nofun).andThen (ihargs.snoc nofun)
  | signed hop _ ih => exact ih.after (Token.Kind.ne_endOfInput_of_unaryOp? hop)
  | operation hop _ _ iha ihb =>
    exact (iha.snoc (Token.Kind.ne_endOfInput_of_infixOp? hop)).andThen ihb
  | oneExpression _ ih | someArguments _ ih | someParameters _ ih => exact ih
  | moreExpressions _ _ ih ihs => exact (ih.snoc nofun).trans ihs
  | noArguments | noParameters | noStatements => exact .none _
  | moreNames _ ih => refine .trans (.andThen (.one ?_) (.one ?_)) ih <;> nofun
  | declare => refine .after (.one ?_) ?_ <;> nofun
  | declareAs _ ih => refine .after (.after (.after ih ?_) ?_) ?_ <;> nofun
  | print _ ih | exit _ ih => exact ih.after nofun
  | conditional _ _ iht ihb | loop _ _ iht ihb => exact (iht.andThen ihb).after nofun
  | alternative _ _ _ iht ihb ihc =>
    exact (iht.andThen ((ihb.snoc nofun).andThen ihc)).after nofun
  | function _ _ ihp ihb =>
    refine .after (.after (.after ((ihp.snoc ?_).andThen ihb) ?_) ?_) ?_ <;> nofun
  | blockAlone _ ih | expressionAlone _ _ ih | plain _ ih => exact ih
  | terminated _ ih => exact ih.snoc nofun
  | block _ ih => exact (ih.snoc nofun).after nofun
  | moreStatements _ _ ih ihs => exact ih.trans ihs

/-! ### First tokens -/

/-- A token that a **primary expression** begins with. -/
def Token.Kind.opensPrimary : Token.Kind → Bool
  | number _ | text _ | identifier _ | keyword .print | mark .leftParen => true
  | _ => false

/-- A token that an **expression** begins with. -/
def Token.Kind.opensExpression (kind : Token.Kind) : Bool :=
  kind.opensPrimary || kind.unaryOp?.isSome

/-- A token that a **statement** begins with. -/
def Token.Kind.opensStatement : Token.Kind → Bool
  | keyword .declare | keyword .ifK | keyword .whileK | keyword .function | keyword .returnK => true
  | mark .leftBrace => true
  | kind => kind.opensExpression

/-- The first of the tokens passes the test. -/
def Opens (test : Token.Kind → Bool) (ts : List Token) : Prop :=
  ∃ t ∈ ts.head?, test t.kind = true

/-- What the first token of a phrase **may be**. -/
def Phrase.Begins (ts : List Token) : Phrase → Prop
  | primary _ | call _ | names _ => Opens Token.Kind.opensPrimary ts
  | unary _ | level _ _ | expression _ | expressions _ => Opens Token.Kind.opensExpression ts
  | block _ => NextIs (.mark .leftBrace) ts
  | bare _ | statement _ => Opens Token.Kind.opensStatement ts
  | _ => True

theorem Opens.imp {test test' : Token.Kind → Bool} {ts : List Token} (h : Opens test ts)
    (htest : ∀ kind, test kind = true → test' kind = true) : Opens test' ts := by
  obtain ⟨t, ht, hkind⟩ := h
  exact ⟨t, ht, htest _ hkind⟩

/-- The next token **does not pass** a test that the first one passes. -/
theorem Opens.not_nextIs {test : Token.Kind → Bool} {ts : List Token} (h : Opens test ts)
    {kind : Token.Kind} (hkind : test kind = false) : ¬ NextIs kind ts := by
  rintro ⟨span, rest, rfl⟩
  obtain ⟨t, ht, htest⟩ := h
  cases Option.some.inj ht
  exact absurd htest (by simp [hkind])

/-- **The first token tells which phrase may begin.** -/
theorem Derives.begins {n : Nat} {phrase : Phrase} {ts rest : List Token}
    (h : Derives n phrase ts rest) : phrase.Begins ts := by
  -- an expression may be a statement by itself
  have hstatement : ∀ kind, Token.Kind.opensExpression kind = true →
      Token.Kind.opensStatement kind = true := fun kind h => by
    unfold Token.Kind.opensStatement
    split <;> first | rfl | exact h
  induction h with
  | number | text | truth | falsehood | name | builtin | parentheses => exact ⟨_, rfl, rfl⟩
  | oneName | moreNames => exact ⟨_, rfl, rfl⟩
  | callee _ ih | application _ _ ih => exact ih
  | unsigned _ ih => exact ih.imp fun kind h => by rw [Token.Kind.opensExpression, h, Bool.true_or]
  | signed hop _ _ => exact ⟨_, rfl, by simp [Token.Kind.opensExpression, hop]⟩
  | tightest _ ih | operand _ _ ih | operation _ _ _ ih | expression _ _ ih => exact ih
  | oneExpression _ ih | moreExpressions _ _ ih => exact ih
  | declare | declareAs | print | conditional | alternative | loop | function | exit =>
    exact ⟨_, rfl, rfl⟩
  | blockAlone _ ih =>
    obtain ⟨span, rest, rfl⟩ := ih
    exact ⟨_, rfl, rfl⟩
  | expressionAlone _ _ ih => exact ih.imp hstatement
  | plain _ ih | terminated _ ih => exact ih
  | block => exact ⟨_, _, rfl⟩
  | _ => trivial

end ScopeScript
