import ScopeScript.Proofs.ParserSound

/-!
# What is derived is read

Whatever tree the grammar derives from the tokens, **the parser builds that tree**, and so no other
can be derived. The proof is by induction on the derivation: for each kind of phrase it says which
reader reads it (`ScopeScript.Phrase.Read`), and what must not come next for the reader to stop
where the derivation does.

The rules for infix operators and for argument lists recur on the left, while the readers go round
in turns. For a phrase of that kind the induction says what the reader has done when it has come to
the end of the phrase: it has read the first operand, and after so many turns it is where it would
be had it started from the whole phrase. Each turn takes a token, so there are turns enough.
-/

namespace ScopeScript

open ScopeScript.Parser

/-! ### Turns of the repetitions -/

namespace Parser

variable {ts mid rest : List Token}

theorem accept_of_not_next {kind : Token.Kind} (h : ¬ NextIs kind ts) :
    accept kind ts = (.ok false, ts) :=
  accept_eq_ok.mpr ⟨h, rfl⟩

theorem accept_next (kind : Token.Kind) (span : Span) :
    accept kind (⟨kind, span⟩ :: rest) = (.ok true, rest) := by
  simp [accept]

theorem identifier_next (expected : Expected) (name : String) (span : Span) :
    identifier expected (⟨.identifier name, span⟩ :: rest) = (.ok (name, span), rest) :=
  rfl

/-- An argument list is **one turn**. -/
theorem calls_succ {p : Parser Expr} {m : Nat} {f : Expr} {args : List Expr}
    {opening closing : Span}
    (h : commaList p mid = (.ok args, ⟨.mark .rightParen, closing⟩ :: rest)) :
    calls p (m + 1) f (⟨.mark .leftParen, opening⟩ :: mid) =
      calls p m (.call f args (f.span.merge closing)) rest := by
  rw [calls, bind_apply_of_ok (accept_next _ opening), if_pos rfl, bind_apply_of_ok h,
    bind_apply_of_ok (expect_eq_ok.mpr rfl)]

theorem calls_of_not_next {p : Parser Expr} {f : Expr} (h : ¬ NextIs (.mark .leftParen) rest) :
    ∀ m, calls p m f rest = (.ok f, rest)
  | 0 => rfl
  | m + 1 => by
    rw [calls, bind_apply_of_ok (accept_of_not_next h)]
    rfl

/-- An operator and its right operand are **one turn**. -/
theorem chain_succ {p : Parser Expr} {m : Nat} {a b : Expr} {kind : Token.Kind} {op : InfixOp}
    {span : Span} (hop : kind.infixOp? = some op) (h : p mid = (.ok b, rest)) :
    chain p op.level (m + 1) a (⟨kind, span⟩ :: mid) = chain p op.level m (op.node a b) rest := by
  rw [chain, bind_apply_of_ok (infixAt_eq_some.mpr ⟨kind, span, rfl, hop, rfl⟩)]
  exact bind_apply_of_ok h _

theorem chain_of_not_next {p : Parser Expr} {l : Nat} {a : Expr} (h : ¬ InfixNext l rest) :
    ∀ m, chain p l m a rest = (.ok a, rest)
  | 0 => rfl
  | m + 1 => by
    rw [chain, bind_apply_of_ok (infixAt_eq_none.mpr ⟨h, rfl⟩)]
    rfl

section Commas

variable {α : Type} {item : Parser α} {x : α} {xs : List α}

theorem commaSeparated_one (h : item ts = (.ok x, rest)) (hrest : ¬ NextIs (.mark .comma) rest) :
    ∀ m, commaSeparated item m ts = (.ok [x], rest)
  | 0 => bind_apply_of_ok h _
  | m + 1 => by
    rw [commaSeparated, bind_apply_of_ok h, bind_apply_of_ok (accept_of_not_next hrest)]
    rfl

theorem commaSeparated_succ {m : Nat} {span : Span}
    (h : item ts = (.ok x, ⟨.mark .comma, span⟩ :: mid))
    (hxs : commaSeparated item m mid = (.ok xs, rest)) :
    commaSeparated item (m + 1) ts = (.ok (x :: xs), rest) := by
  rw [commaSeparated, bind_apply_of_ok h, bind_apply_of_ok (accept_next _ span)]
  exact bind_apply_of_ok hxs _

theorem commaList_nil (h : NextIs (.mark .rightParen) ts) : commaList item ts = (.ok [], ts) := by
  rw [commaList, bind_apply_of_ok (peek_eq_ok.mpr ⟨head?_kind_eq_some.mpr h, rfl⟩), if_pos rfl]
  rfl

theorem commaList_of_not_next (h : ¬ NextIs (.mark .rightParen) ts) :
    commaList item ts = commaSeparated item ts.length ts := by
  rw [commaList, bind_apply_of_ok (peek_eq_ok.mpr ⟨rfl, rfl⟩), if_neg fun hk =>
    h (head?_kind_eq_some.mp hk)]
  rfl

end Commas

end Parser

theorem Opens.not_atEnd {ts : List Token} (h : Opens Token.Kind.opensStatement ts) :
    ¬ AtEnd ts := by
  obtain ⟨t, ht, hkind⟩ := h
  intro hend
  rw [hend t ht] at hkind
  contradiction

/-! ### What it is to read a phrase -/

section Reading

variable {n l : Nat} {e : Expr} {ts rest : List Token}

/-- **The argument lists of a call**: the reader comes to its end in some turns, each of which takes
a token. -/
def ReadsCall (n : Nat) (e : Expr) (ts rest : List Token) : Prop :=
  ∃ callee mid k, primary (expression n) ts = (.ok callee, mid) ∧ k + rest.length ≤ mid.length ∧
    ∀ m, calls (expression n) (k + m) callee mid = calls (expression n) m e rest

/-- **The operators of a level**: the reader comes to the end of the last operand in some turns,
each of which takes a token. -/
def ReadsChain (n l : Nat) (e : Expr) (ts rest : List Token) : Prop :=
  ∃ left mid k, levelsFrom (l + 1) (unary n) ts = (.ok left, mid) ∧ k + rest.length ≤ mid.length ∧
    ∀ m, chain (levelsFrom (l + 1) (unary n)) l (k + m) left mid =
      chain (levelsFrom (l + 1) (unary n)) l m e rest

/-- Operands of a level, where nothing continues the last of them. -/
def ReadsLevel (n l : Nat) (e : Expr) (ts rest : List Token) : Prop :=
  if l < InfixOp.levelCount then Closed (l + 1) rest → ReadsChain n l e ts rest
  else ¬ NextIs (.mark .leftParen) rest → unary n ts = (.ok e, rest)

/-- Nothing follows a statement that **belongs to it**, but for a semicolon. -/
def Detached (rest : List Token) : Prop :=
  ¬ NextIs (.mark .assign) rest ∧ ¬ NextIs (.keyword .elseK) rest

/-- **How a phrase is read**, from the tokens of `ts` down to those of `rest`. -/
def Phrase.Read (n : Nat) (ts rest : List Token) : Phrase → Prop
  | primary e => Parser.primary (Parser.expression n) ts = (.ok e, rest)
  | call e => ReadsCall n e ts rest
  | unary e => ¬ NextIs (.mark .leftParen) rest → Parser.unary n ts = (.ok e, rest)
  | level l e => ReadsLevel n l e ts rest
  | expression e => Parser.expression n ts = (.ok e, rest)
  | expressions es => ¬ NextIs (.mark .comma) rest → ∀ m, es.length ≤ m →
    commaSeparated (Parser.expression n) m ts = (.ok es, rest)
  | arguments es => NextIs (.mark .rightParen) rest →
    commaList (Parser.expression n) ts = (.ok es, rest)
  | names ns => ¬ NextIs (.mark .comma) rest → ∀ m, ns.length ≤ m →
    ∃ pairs, pairs.map Prod.fst = ns ∧
      commaSeparated (identifier .parameterName) m ts = (.ok pairs, rest)
  | parameters ns => NextIs (.mark .rightParen) rest →
    ∃ pairs, pairs.map Prod.fst = ns ∧ commaList (identifier .parameterName) ts = (.ok pairs, rest)
  | block b => Parser.block n ts = (.ok b, rest)
  | bare s => Detached rest →
    bareStatement (Parser.expression n) (Parser.block n) ts = (.ok s, rest)
  | statement s => Detached rest → ¬ NextIs (.mark .semicolon) rest →
    Parser.statement n ts = (.ok s, rest)
  | statements ss =>
    (NextIs (.mark .rightBrace) rest → ∀ m, ss.length < m →
      statementsInBlock (Parser.statement n) m ts = (.ok ss, rest)) ∧
    (AtEnd rest → ∀ m, ss.length ≤ m →
      statementsToEnd (Parser.statement n) m ts = (.ok ss, rest))

/-- A call is read **to its end** if no parenthesis opens there. -/
theorem ReadsCall.unary_eq (h : ReadsCall n e ts rest) (hopens : Opens Token.Kind.opensPrimary ts)
    (hrest : ¬ NextIs (.mark .leftParen) rest) : unary n ts = (.ok e, rest) := by
  obtain ⟨callee, mid, k, hcallee, hle, hcalls⟩ := h
  have hoperator : unaryOperator ts = (.ok none, ts) := by
    refine unaryOperator_eq_none.mpr ⟨fun t ht => ?_, rfl⟩
    obtain ⟨t', ht', hkind⟩ := hopens
    obtain rfl := Option.mem_unique ht ht'
    generalize t.kind = kind at hkind
    cases kind <;> first | rfl | exact absurd hkind nofun
  have hlevel : ∃ operand, unary n = unaryLevel operand (expression n) := by
    cases n with
    | zero => exact ⟨_, unary_zero⟩
    | succ n => exact ⟨_, unary_succ n⟩
  obtain ⟨operand, hlevel⟩ := hlevel
  rw [hlevel, unaryLevel, bind_apply_of_ok hoperator]
  refine (bind_apply_of_ok hcallee _).trans ?_
  -- the turns of the derivation come first, and those left over find nothing
  have hturns : mid.length = k + (mid.length - k) := by omega
  rw [turns, hturns, hcalls, calls_of_not_next hrest]

theorem Closed.mono {l' : Nat} (h : Closed l rest) (hl : l ≤ l') : Closed l' rest :=
  fun t ht => ⟨(h t ht).1, fun op hop => Nat.lt_of_lt_of_le ((h t ht).2 op hop) hl⟩

theorem Closed.not_nextIs (h : Closed l rest) : ¬ NextIs (.mark .leftParen) rest := by
  rintro ⟨span, rest', rfl⟩
  exact (h _ rfl).1 rfl

theorem Closed.not_infixNext (h : Closed l rest) : ¬ InfixNext l rest := by
  rintro ⟨t, ht, op, hop, rfl⟩
  exact Nat.lt_irrefl _ ((h t ht).2 op hop)

/-- A level is read **to its end** if nothing continues it there. -/
theorem ReadsLevel.levelsFrom_eq (h : ReadsLevel n l e ts rest) (hl : l ≤ InfixOp.levelCount)
    (hrest : Closed l rest) : levelsFrom l (unary n) ts = (.ok e, rest) := by
  rw [ReadsLevel] at h
  split at h
  · next hlt =>
    obtain ⟨left, mid, k, hleft, hle, hchain⟩ := h (hrest.mono (Nat.le_succ l))
    rw [levelsFrom_of_lt hlt, infixLevel, bind_apply_of_ok hleft]
    have hturns : mid.length = k + (mid.length - k) := by omega
    rw [turns, hturns, hchain, chain_of_not_next hrest.not_infixNext]
  · next hnot =>
    obtain rfl : l = InfixOp.levelCount := by omega
    rw [levelsFrom_levelCount]
    exact h hrest.not_nextIs

end Reading

/-! ### Phrase by phrase -/

section Phrases

variable {n l : Nat} {ts mid rest : List Token}

theorem read_name {p : Parser Expr} {id : String} {span : Span} (htrue : id ≠ "true")
    (hfalse : id ≠ "false") :
    primary p (⟨.identifier id, span⟩ :: rest) = (.ok (.name id span), rest) := by
  refine (bind_apply_of_ok (token_eq_ok.mpr rfl) _).trans ?_
  -- the two words for truth values come first in the choice
  simp only
  rfl

theorem read_parentheses {p : Parser Expr} {e : Expr} {opening closing : Span}
    (h : p ts = (.ok e, ⟨.mark .rightParen, closing⟩ :: rest)) :
    primary p (⟨.mark .leftParen, opening⟩ :: ts) =
      (.ok (e.withSpan (opening.merge closing)), rest) := by
  refine (bind_apply_of_ok (token_eq_ok.mpr rfl) _).trans ?_
  refine (bind_apply_of_ok h _).trans ?_
  exact bind_apply_of_ok (expect_eq_ok.mpr rfl) _

/-- One more argument list is **one more turn**. -/
theorem read_application {f : Expr} {args : List Expr} {opening closing : Span}
    (hf : ReadsCall n f ts (⟨.mark .leftParen, opening⟩ :: mid))
    (hargs : commaList (expression n) mid = (.ok args, ⟨.mark .rightParen, closing⟩ :: rest))
    (hle : rest.length + 1 ≤ mid.length) :
    ReadsCall n (.call f args (f.span.merge closing)) ts rest := by
  obtain ⟨callee, start, k, hcallee, hk, hcalls⟩ := hf
  refine ⟨callee, start, k + 1, hcallee, ?_, fun m => ?_⟩
  · rw [List.length_cons] at hk
    omega
  · rw [Nat.add_assoc, Nat.add_comm 1 m, hcalls, calls_succ hargs]

theorem read_signed {kind : Token.Kind} {op : UnaryOp} {span : Span} {e : Expr}
    (hop : kind.unaryOp? = some op) (h : unary n ts = (.ok e, rest)) :
    unary (n + 1) (⟨kind, span⟩ :: ts) = (.ok (.unary op e (span.merge e.span)), rest) := by
  have hoperator : unaryOperator (⟨kind, span⟩ :: ts) = (.ok (some (op, span)), ts) :=
    unaryOperator_eq_some.mpr ⟨kind, rfl, hop⟩
  rw [unary_succ, unaryLevel, bind_apply_of_ok hoperator]
  exact bind_apply_of_ok h _

/-- An operand is a **chain without turns**. -/
theorem read_operand {e : Expr} (hl : l < InfixOp.levelCount) (h : ReadsLevel n (l + 1) e ts rest) :
    ReadsLevel n l e ts rest := by
  rw [ReadsLevel, if_pos hl]
  intro hrest
  exact ⟨e, rest, 0, h.levelsFrom_eq hl hrest, Nat.le_of_eq (Nat.zero_add _), fun m => by
    rw [Nat.zero_add]⟩

/-- One more operator is **one more turn**. -/
theorem read_operation {a b : Expr} {kind : Token.Kind} {op : InfixOp} {span : Span}
    (hop : kind.infixOp? = some op) (ha : ReadsLevel n op.level a ts (⟨kind, span⟩ :: mid))
    (hb : ReadsLevel n (op.level + 1) b mid rest) (hle : rest.length ≤ mid.length) :
    ReadsLevel n op.level (op.node a b) ts rest := by
  rw [ReadsLevel, if_pos op.level_lt] at ha ⊢
  intro hrest
  -- the operator is looser than what continues its left operand
  have hnext : Closed (op.level + 1) (⟨kind, span⟩ :: mid) := by
    intro t ht
    obtain rfl := Option.some.inj ht
    refine ⟨fun hk => ?_, fun op' hop' => ?_⟩
    · subst hk
      contradiction
    · obtain rfl := Option.some.inj (hop.symm.trans hop')
      exact Nat.lt_succ_self _
  obtain ⟨left, start, k, hleft, hk, hchain⟩ := ha hnext
  refine ⟨left, start, k + 1, hleft, ?_, fun m => ?_⟩
  · rw [List.length_cons] at hk
    omega
  · rw [Nat.add_assoc, Nat.add_comm 1 m, hchain,
      chain_succ hop (hb.levelsFrom_eq op.level_lt hrest)]

/-- An expression by itself is read as such, **if it does not begin with the word for printing**. -/
theorem read_expressionAlone {p : Parser Expr} {q : Parser Block} {e : Expr}
    (h : p ts = (.ok e, rest)) (hopens : Opens Token.Kind.opensExpression ts)
    (hprint : ¬ NextIs (.keyword .print) ts) :
    bareStatement p q ts = (.ok (.expression e), rest) := by
  have hread : (do return Stmt.expression (← p) : Parser Stmt) ts = (.ok (.expression e), rest) :=
    bind_apply_of_ok h _
  rw [← hread]
  obtain ⟨t, ht, hkind⟩ := hopens
  obtain ⟨kind, span⟩ := t
  obtain ⟨after, rfl⟩ : ∃ after, ts = ⟨kind, span⟩ :: after := by
    cases ts with
    | nil => contradiction
    | cons t after => exact ⟨after, by rw [Option.some.inj ht]⟩
  -- all other first words belong to statements that no expression begins like
  cases kind with
  | keyword k =>
    cases k with
    | print => exact absurd ⟨span, after, rfl⟩ hprint
    | _ => exact absurd hkind nofun
  | mark m =>
    cases m with
    | leftParen => rfl
    | _ => exact absurd hkind nofun
  | _ => rfl

section FirstWord

variable (p : Parser Expr) (q : Parser Block) (word : Span) (ts : List Token)

theorem bareStatement_declare : bareStatement p q (⟨.keyword .declare, word⟩ :: ts) =
    declaration p (⟨.keyword .declare, word⟩ :: ts) :=
  rfl

theorem bareStatement_print : bareStatement p q (⟨.keyword .print, word⟩ :: ts) =
    printing p (⟨.keyword .print, word⟩ :: ts) :=
  rfl

theorem bareStatement_if : bareStatement p q (⟨.keyword .ifK, word⟩ :: ts) =
    conditional p q (⟨.keyword .ifK, word⟩ :: ts) :=
  rfl

theorem bareStatement_while : bareStatement p q (⟨.keyword .whileK, word⟩ :: ts) =
    loop p q (⟨.keyword .whileK, word⟩ :: ts) :=
  rfl

theorem bareStatement_function : bareStatement p q (⟨.keyword .function, word⟩ :: ts) =
    function q (⟨.keyword .function, word⟩ :: ts) :=
  rfl

theorem bareStatement_return : bareStatement p q (⟨.keyword .returnK, word⟩ :: ts) =
    exit p (⟨.keyword .returnK, word⟩ :: ts) :=
  rfl

end FirstWord

theorem read_declare {p : Parser Expr} {q : Parser Block} {name : String} {word span : Span}
    (hrest : Detached rest) :
    bareStatement p q (⟨.keyword .declare, word⟩ :: ⟨.identifier name, span⟩ :: rest) =
      (.ok (.declare name none (word.merge span)), rest) := by
  rw [bareStatement_declare, declaration, bind_apply_of_ok (token_eq_ok.mpr rfl),
    bind_apply_of_ok (identifier_next _ name span)]
  exact bind_apply_of_ok (accept_of_not_next hrest.1) _

theorem read_declareAs {p : Parser Expr} {q : Parser Block} {name : String} {word span sign : Span}
    {e : Expr} (h : p ts = (.ok e, rest)) :
    bareStatement p q
        (⟨.keyword .declare, word⟩ :: ⟨.identifier name, span⟩ :: ⟨.mark .assign, sign⟩ :: ts) =
      (.ok (.declare name (some e) (word.merge e.span)), rest) := by
  rw [bareStatement_declare, declaration, bind_apply_of_ok (token_eq_ok.mpr rfl),
    bind_apply_of_ok (identifier_next _ name span)]
  refine (bind_apply_of_ok (accept_next _ sign) _).trans ?_
  exact bind_apply_of_ok h _

theorem read_print {p : Parser Expr} {q : Parser Block} {e : Expr} {word : Span}
    (h : p ts = (.ok e, rest)) :
    bareStatement p q (⟨.keyword .print, word⟩ :: ts) =
      (.ok (.print e (word.merge e.span)), rest) := by
  rw [bareStatement_print, printing, bind_apply_of_ok (token_eq_ok.mpr rfl)]
  exact bind_apply_of_ok h _

theorem read_conditional {p : Parser Expr} {q : Parser Block} {test : Expr} {b : Block}
    {word : Span}
    (htest : p ts = (.ok test, mid)) (hb : q mid = (.ok b, rest)) (hrest : Detached rest) :
    bareStatement p q (⟨.keyword .ifK, word⟩ :: ts) =
      (.ok (.conditional test b none (word.merge b.span)), rest) := by
  rw [bareStatement_if, conditional, bind_apply_of_ok (token_eq_ok.mpr rfl), bind_apply_of_ok htest,
    bind_apply_of_ok hb]
  exact bind_apply_of_ok (accept_of_not_next hrest.2) _

theorem read_alternative {p : Parser Expr} {q : Parser Block} {test : Expr} {b c : Block}
    {word span : Span} {mid' : List Token} (htest : p ts = (.ok test, mid))
    (hb : q mid = (.ok b, ⟨.keyword .elseK, span⟩ :: mid')) (hc : q mid' = (.ok c, rest)) :
    bareStatement p q (⟨.keyword .ifK, word⟩ :: ts) =
      (.ok (.conditional test b (some c) (word.merge c.span)), rest) := by
  rw [bareStatement_if, conditional, bind_apply_of_ok (token_eq_ok.mpr rfl), bind_apply_of_ok htest,
    bind_apply_of_ok hb]
  refine (bind_apply_of_ok (accept_next _ span) _).trans ?_
  exact bind_apply_of_ok hc _

theorem read_loop {p : Parser Expr} {q : Parser Block} {test : Expr} {b : Block} {word : Span}
    (htest : p ts = (.ok test, mid)) (hb : q mid = (.ok b, rest)) :
    bareStatement p q (⟨.keyword .whileK, word⟩ :: ts) =
      (.ok (.loop test b (word.merge b.span)), rest) := by
  rw [bareStatement_while, loop, bind_apply_of_ok (token_eq_ok.mpr rfl), bind_apply_of_ok htest]
  exact bind_apply_of_ok hb _

theorem read_function {p : Parser Expr} {q : Parser Block} {name : String}
    {params : List (String × Span)} {b : Block} {word span opening closing : Span}
    (hparams : commaList (identifier .parameterName) ts =
      (.ok params, ⟨.mark .rightParen, closing⟩ :: mid)) (hb : q mid = (.ok b, rest)) :
    bareStatement p q
        (⟨.keyword .function, word⟩ :: ⟨.identifier name, span⟩ :: ⟨.mark .leftParen, opening⟩ ::
          ts) =
      (.ok (.function name (params.map Prod.fst) b (word.merge b.span)), rest) := by
  rw [bareStatement_function, function, bind_apply_of_ok (token_eq_ok.mpr rfl),
    bind_apply_of_ok (identifier_next _ name span)]
  refine (bind_apply_of_ok (expect_eq_ok.mpr rfl) _).trans ?_
  refine (bind_apply_of_ok hparams _).trans ?_
  refine (bind_apply_of_ok (expect_eq_ok.mpr rfl) _).trans ?_
  exact bind_apply_of_ok hb _

theorem read_exit {p : Parser Expr} {q : Parser Block} {e : Expr} {word : Span}
    (h : p ts = (.ok e, rest)) :
    bareStatement p q (⟨.keyword .returnK, word⟩ :: ts) =
      (.ok (.exit e (word.merge e.span)), rest) := by
  rw [bareStatement_return, exit, bind_apply_of_ok (token_eq_ok.mpr rfl)]
  exact bind_apply_of_ok h _

theorem read_plain {s : Stmt} (h : bareStatement (expression n) (block n) ts = (.ok s, rest))
    (hrest : ¬ NextIs (.mark .semicolon) rest) : statement n ts = (.ok s, rest) := by
  refine (bind_apply_of_ok h _).trans ?_
  exact bind_apply_of_ok (accept_of_not_next hrest) _

theorem read_terminated {s : Stmt} {span : Span}
    (h : bareStatement (expression n) (block n) ts = (.ok s, ⟨.mark .semicolon, span⟩ :: rest)) :
    statement n ts = (.ok s, rest) := by
  refine (bind_apply_of_ok h _).trans ?_
  exact bind_apply_of_ok (accept_next _ span) _

theorem read_block {ss : List Stmt} {opening closing : Span}
    (h : statementsInBlock (statement n) ts.length ts =
      (.ok ss, ⟨.mark .rightBrace, closing⟩ :: rest)) :
    block (n + 1) (⟨.mark .leftBrace, opening⟩ :: ts) =
      (.ok (.mk ss (opening.merge closing)), rest) := by
  have hbraced : block (n + 1) = braced (statement n) := funext fun _ => rfl
  rw [hbraced, braced, bind_apply_of_ok (expect_eq_ok.mpr rfl)]
  refine (bind_apply_of_ok h _).trans ?_
  exact bind_apply_of_ok (expect_eq_ok.mpr rfl) _

theorem statementsInBlock_nil {r : Parser Stmt} (h : NextIs (.mark .rightBrace) rest) :
    ∀ m, 0 < m → statementsInBlock r m rest = (.ok [], rest)
  | m + 1, _ => by
    rw [statementsInBlock, bind_apply_of_ok (peek_eq_ok.mpr ⟨head?_kind_eq_some.mpr h, rfl⟩),
      if_pos rfl]
    rfl

theorem statementsInBlock_succ {r : Parser Stmt} {m : Nat} {s : Stmt} {ss : List Stmt}
    (hopens : Opens Token.Kind.opensStatement ts) (hs : r ts = (.ok s, mid))
    (hss : statementsInBlock r m mid = (.ok ss, rest)) :
    statementsInBlock r (m + 1) ts = (.ok (s :: ss), rest) := by
  have hbrace : ¬ ts.head?.map Token.kind = some (.mark .rightBrace) := fun h =>
    hopens.not_nextIs rfl (head?_kind_eq_some.mp h)
  have hend : atEnd ts = (.ok false, ts) :=
    atEnd_eq_ok.mpr ⟨iff_of_false Bool.false_ne_true hopens.not_atEnd, rfl⟩
  rw [statementsInBlock, bind_apply_of_ok (peek_eq_ok.mpr ⟨rfl, rfl⟩), if_neg hbrace,
    bind_apply_of_ok hend]
  refine (bind_apply_of_ok hs _).trans ?_
  exact bind_apply_of_ok hss _

theorem statementsToEnd_nil {r : Parser Stmt} (h : AtEnd rest) :
    ∀ m, statementsToEnd r m rest = (.ok [], rest)
  | 0 => rfl
  | m + 1 => by
    rw [statementsToEnd, bind_apply_of_ok (atEnd_eq_ok.mpr ⟨iff_of_true rfl h, rfl⟩), if_pos rfl]
    rfl

theorem statementsToEnd_succ {r : Parser Stmt} {m : Nat} {s : Stmt} {ss : List Stmt}
    (hopens : Opens Token.Kind.opensStatement ts) (hs : r ts = (.ok s, mid))
    (hss : statementsToEnd r m mid = (.ok ss, rest)) :
    statementsToEnd r (m + 1) ts = (.ok (s :: ss), rest) := by
  have hend : atEnd ts = (.ok false, ts) :=
    atEnd_eq_ok.mpr ⟨iff_of_false Bool.false_ne_true hopens.not_atEnd, rfl⟩
  rw [statementsToEnd, bind_apply_of_ok hend]
  refine (bind_apply_of_ok hs _).trans ?_
  exact bind_apply_of_ok hss _

end Phrases

/-! ### Every derivation -/

/-- Nothing follows that belongs to the statement before. -/
def Settled (rest : List Token) : Prop :=
  Detached rest ∧ ¬ NextIs (.mark .semicolon) rest

theorem Opens.settled {ts : List Token} (h : Opens Token.Kind.opensStatement ts) : Settled ts :=
  ⟨⟨h.not_nextIs rfl, h.not_nextIs rfl⟩, h.not_nextIs rfl⟩

theorem Parser.NextIs.not_nextIs {kind kind' : Token.Kind} {ts : List Token} (h : NextIs kind ts)
    (hne : kind ≠ kind') : ¬ NextIs kind' ts := by
  rintro ⟨span', rest', rfl⟩
  obtain ⟨span, rest, heq⟩ := h
  exact hne (congrArg Token.kind (List.cons.inj heq).1).symm

theorem Parser.NextIs.settled {ts : List Token} (h : NextIs (.mark .rightBrace) ts) : Settled ts :=
  ⟨⟨h.not_nextIs (by decide), h.not_nextIs (by decide)⟩, h.not_nextIs (by decide)⟩

theorem Parser.AtEnd.settled {ts : List Token} (h : AtEnd ts) : Settled ts := by
  have hnot : ∀ kind, kind ≠ .endOfInput → ¬ NextIs kind ts := by
    rintro kind hne ⟨span, rest, rfl⟩
    exact hne (h _ rfl)
  exact ⟨⟨hnot _ nofun, hnot _ nofun⟩, hnot _ nofun⟩

/-- Statements **begin like a statement, or are none**. -/
theorem Derives.statements_begin {n : Nat} {ss : List Stmt} {ts rest : List Token}
    (h : Derives n (.statements ss) ts rest) : ts = rest ∨ Opens Token.Kind.opensStatement ts := by
  cases h with
  | noStatements => exact .inl rfl
  | moreStatements hs _ => exact .inr hs.begins

/-- **What the grammar derives, the parser reads.** -/
theorem Derives.read {n : Nat} {phrase : Phrase} {ts rest : List Token}
    (h : Derives n phrase ts rest) : phrase.Read n ts rest := by
  induction h with
  | number | text | truth | falsehood | builtin => rfl
  | name htrue hfalse => exact read_name htrue hfalse
  | parentheses _ ih => exact read_parentheses ih
  | @callee n e ts rest _ ih =>
    -- no argument list yet, so no turn
    exact ⟨e, rest, 0, ih, Nat.le_of_eq (Nat.zero_add _), fun m => by rw [Nat.zero_add]⟩
  | application _ hargs ihf ihargs =>
    -- the arguments may be none, but the parenthesis that closes them is a token
    have hle := hargs.takes.length_le
    rw [List.length_cons] at hle
    exact read_application ihf (ihargs ⟨_, _, rfl⟩) (by omega)
  | unsigned h ih => exact fun hrest => ih.unary_eq h.begins hrest
  | signed hop _ ih => exact fun hrest => read_signed hop (ih hrest)
  | tightest _ ih => exact ih
  | operand hl _ ih => exact read_operand hl ih
  | operation hop _ hb iha ihb =>
    have hle := hb.takes.length_le
    exact read_operation hop iha ihb (by omega)
  | expression _ hrest ih =>
    rw [Phrase.Read, expression_succ]
    exact ReadsLevel.levelsFrom_eq ih (Nat.zero_le _) (closed_zero_iff.mpr hrest)
  | oneExpression _ ih => exact fun hrest m _ => commaSeparated_one ih hrest m
  | moreExpressions _ _ ih ihs =>
    intro hrest m hm
    obtain ⟨m, rfl⟩ := Nat.exists_eq_add_one_of_ne_zero (Nat.ne_of_gt (Nat.zero_lt_of_lt hm))
    exact commaSeparated_succ ih (ihs hrest m (Nat.le_of_succ_le_succ hm))
  | noArguments => exact commaList_nil
  | someArguments h ih =>
    intro hrest
    -- each argument takes a token, so there are turns enough for them
    have hle := h.takes.length_le
    simp only [Phrase.size] at hle
    refine (commaList_of_not_next (h.begins.not_nextIs rfl)).trans ?_
    exact ih (hrest.not_nextIs (by decide)) _ (by omega)
  | oneName => exact fun hrest m _ => ⟨[_], rfl, commaSeparated_one (identifier_next ..) hrest m⟩
  | @moreNames n name names span comma ts rest _ ih =>
    intro hrest m hm
    obtain ⟨m, rfl⟩ := Nat.exists_eq_add_one_of_ne_zero (Nat.ne_of_gt (Nat.zero_lt_of_lt hm))
    obtain ⟨pairs, rfl, hpairs⟩ := ih hrest m (Nat.le_of_succ_le_succ hm)
    exact ⟨(name, span) :: pairs, rfl, commaSeparated_succ (identifier_next ..) hpairs⟩
  | noParameters => exact fun hrest => ⟨[], rfl, commaList_nil hrest⟩
  | @someParameters n names ts rest h ih =>
    intro hrest
    have hle := h.takes.length_le
    simp only [Phrase.size] at hle
    obtain ⟨pairs, rfl, hpairs⟩ := ih (hrest.not_nextIs (by decide)) ts.length (by omega)
    exact ⟨pairs, rfl, (commaList_of_not_next (h.begins.not_nextIs rfl)).trans hpairs⟩
  | declare => exact read_declare
  | declareAs _ ih => exact fun _ => read_declareAs ih
  | print _ ih => exact fun _ => read_print ih
  | conditional _ _ iht ihb => exact read_conditional iht ihb
  | alternative _ _ _ iht ihb ihc => exact fun _ => read_alternative iht ihb ihc
  | loop _ _ iht ihb => exact fun _ => read_loop iht ihb
  | function _ _ ihp ihb =>
    intro _
    obtain ⟨params, rfl, hparams⟩ := ihp ⟨_, _, rfl⟩
    exact read_function hparams ihb
  | exit _ ih => exact fun _ => read_exit ih
  | blockAlone h ih =>
    obtain ⟨span, after, rfl⟩ := h.begins
    exact fun _ => bind_apply_of_ok ih _
  | expressionAlone h hprint ih => exact fun _ => read_expressionAlone ih h.begins hprint
  | plain _ ih => exact fun hrest hsemicolon => read_plain (ih hrest) hsemicolon
  | @terminated n s span ts rest _ ih =>
    have hnext : NextIs (.mark .semicolon) (⟨.mark .semicolon, span⟩ :: rest) := ⟨_, _, rfl⟩
    have hdetached : Detached (⟨.mark .semicolon, span⟩ :: rest) :=
      ⟨hnext.not_nextIs (by decide), hnext.not_nextIs (by decide)⟩
    exact fun _ _ => read_terminated (ih hdetached)
  | block h ih =>
    have hle := h.takes.length_le
    simp only [Phrase.size, List.length_cons] at hle
    exact read_block (ih.1 ⟨_, _, rfl⟩ _ (by omega))
  | noStatements =>
    exact ⟨statementsInBlock_nil, fun hrest m _ => statementsToEnd_nil hrest m⟩
  | @moreStatements n s ss ts mid rest hs hss ih ihs =>
    -- what follows the statement is the next one, or the end of them all
    have hsettled : Settled rest → Settled mid := fun hrest =>
      hss.statements_begin.elim (fun h => h ▸ hrest) Opens.settled
    refine ⟨fun hrest m hm => ?_, fun hrest m hm => ?_⟩
    · obtain ⟨m, rfl⟩ := Nat.exists_eq_add_one_of_ne_zero (Nat.ne_of_gt (Nat.zero_lt_of_lt hm))
      obtain ⟨hdetached, hsemicolon⟩ := hsettled hrest.settled
      exact statementsInBlock_succ hs.begins (ih hdetached hsemicolon)
        (ihs.1 hrest m (Nat.lt_of_succ_lt_succ hm))
    · obtain ⟨m, rfl⟩ := Nat.exists_eq_add_one_of_ne_zero (Nat.ne_of_gt (Nat.zero_lt_of_lt hm))
      obtain ⟨hdetached, hsemicolon⟩ := hsettled hrest.settled
      exact statementsToEnd_succ hs.begins (ih hdetached hsemicolon)
        (ihs.2 hrest m (Nat.le_of_succ_le_succ hm))

/-! ### Programs -/

/-- **What the tokens spell is parsed.** -/
theorem Program.Spelled.parse_eq {p : Program} {tokens : List Token} (h : p.Spelled tokens) :
    parse tokens = .ok p := by
  obtain ⟨span, h⟩ := h
  have hle := h.takes.length_le
  simp only [Phrase.size, List.length_cons] at hle
  have hend : AtEnd [⟨.endOfInput, span⟩] := fun t ht => by rw [← Option.some.inj ht]
  have hprogram : Parser.program tokens = (.ok p, [⟨.endOfInput, span⟩]) :=
    bind_apply_of_ok (turns_eq_ok.mpr (h.read.2 hend _ (by omega))) _
  rw [parse, hprogram]

/-- **The parser is exactly the grammar.** Of tokens among which only the last is the end of the
input, the parser makes a program if and only if the rules derive that program from them, and they
derive no other. -/
theorem parse_eq_ok_iff_spelled (body : List Token) (last : Token) (hlast : last.kind = .endOfInput)
    (hbody : ∀ t ∈ body, t.kind ≠ .endOfInput) :
    (∀ p, parse (body ++ [last]) = .ok p ↔ p.Spelled (body ++ [last])) ∧
      ∀ p q : Program, p.Spelled (body ++ [last]) → q.Spelled (body ++ [last]) → p = q := by
  obtain ⟨kind, span⟩ := last
  obtain rfl : kind = .endOfInput := hlast
  refine ⟨fun p => ⟨Program.spelled_of_parse hbody, Program.Spelled.parse_eq⟩, fun p q hp hq => ?_⟩
  exact Except.ok.inj (hp.parse_eq.symm.trans hq.parse_eq)

/-- The word for printing before a name in parentheses: a print statement, and no call. -/
theorem parse_eq_ok_iff_spelled_print :
    (∀ t ∈ [(⟨.keyword .print, .none⟩ : Token), ⟨.mark .leftParen, .none⟩, ⟨.identifier "x", .none⟩,
      ⟨.mark .rightParen, .none⟩], t.kind ≠ .endOfInput) ∧
    Program.Spelled ⟨[.print (.name "x" (Span.merge .none .none))
        (Span.merge .none (Span.merge .none .none))]⟩
      ([⟨.keyword .print, .none⟩, ⟨.mark .leftParen, .none⟩, ⟨.identifier "x", .none⟩,
        ⟨.mark .rightParen, .none⟩] ++ [⟨.endOfInput, .none⟩]) :=
  have hbody : ∀ t ∈ [(⟨.keyword .print, .none⟩ : Token), ⟨.mark .leftParen, .none⟩,
      ⟨.identifier "x", .none⟩, ⟨.mark .rightParen, .none⟩], t.kind ≠ .endOfInput := by decide
  ⟨hbody, ((parse_eq_ok_iff_spelled _ ⟨.endOfInput, .none⟩ rfl hbody).1 _).mp rfl⟩

end ScopeScript
