import ScopeScript.Proofs.Grammar

/-!
# What the parser reads is derived

Whatever tree the parser builds, **the grammar derives it from the tokens that were taken**. The
proof follows the readers: from the operand that a reader is given to what the reader makes of it,
and so by the levels of nesting left.

An expression that has been read is complete. Each repetition goes on while what it looks for is
next, so that in the end it is not: after argument lists no parenthesis opens, and after the
operators of a level there is none of that level or of a tighter one (`ScopeScript.Closed`).
Repetitions have turns enough for that, as each of them takes a token.
-/

namespace ScopeScript

namespace Parser

variable {n : Nat} {ts ts' rest : List Token}

/-! ### Commas -/

section Commas

variable {α : Type} {item : Parser α} {P : List α → List Token → List Token → Prop}

/-- Items separated by commas, **one by one**. -/
theorem of_commaSeparated (hone : ∀ x ts rest, item ts = (.ok x, rest) → P [x] ts rest)
    (hmore : ∀ x xs span ts mid rest, item ts = (.ok x, ⟨.mark .comma, span⟩ :: mid) →
      P xs mid rest → P (x :: xs) ts rest) {xs : List α} (turns : Nat)
    (h : commaSeparated item turns ts = (.ok xs, rest)) : P xs ts rest := by
  induction turns generalizing xs ts with
  | zero =>
    simp only [commaSeparated, bind_eq_ok, pure_eq_ok] at h
    obtain ⟨x, mid, hx, rfl, rfl⟩ := h
    exact hone x ts mid hx
  | succ turns ih =>
    simp only [commaSeparated, bind_eq_ok, ite_apply] at h
    obtain ⟨x, mid, hx, found, mid', hcomma, h⟩ := h
    cases found with
    | true =>
      obtain ⟨span, rfl⟩ := accept_eq_ok.mp hcomma
      simp only [if_true, bind_eq_ok, pure_eq_ok] at h
      obtain ⟨xs', _, hxs, rfl, rfl⟩ := h
      exact hmore x xs' span ts mid' _ hx (ih hxs)
    | false =>
      obtain ⟨-, rfl⟩ := accept_eq_ok.mp hcomma
      obtain ⟨rfl, rfl⟩ := pure_eq_ok.mp h
      exact hone x ts _ hx

/-- A list up to a closing parenthesis has no items, or is **separated by commas**. -/
theorem of_commaList {xs : List α} (h : commaList item ts = (.ok xs, rest)) :
    xs = [] ∧ ts = rest ∨ commaSeparated item ts.length ts = (.ok xs, rest) := by
  simp only [commaList, bind_eq_ok, peek_eq_ok, ite_apply] at h
  obtain ⟨kind, _, ⟨-, rfl⟩, h⟩ := h
  split at h
  · exact .inl ⟨(pure_eq_ok.mp h).1.symm, (pure_eq_ok.mp h).2⟩
  · exact .inr h

end Commas

/-! ### Expressions -/

/-- The reader gives **expressions** that the grammar derives. -/
def SoundExpression (n : Nat) (p : Parser Expr) : Prop :=
  ∀ ⦃ts e rest⦄, p ts = (.ok e, rest) → Derives n (.expression e) ts rest

/-- The reader gives operands of **the given level** that the grammar derives, and goes on as long
as it can. -/
def SoundLevel (n l : Nat) (p : Parser Expr) : Prop :=
  ∀ ⦃ts e rest⦄, p ts = (.ok e, rest) → Derives n (.level l e) ts rest ∧ Closed l rest

/-- The reader gives unary operators before calls that the grammar derives, and goes on as long as
it can. -/
def SoundUnary (n : Nat) (p : Parser Expr) : Prop :=
  ∀ ⦃ts e rest⦄, p ts = (.ok e, rest) →
    Derives n (.unary e) ts rest ∧ Closed InfixOp.levelCount rest

theorem primary_sound {p : Parser Expr} (hp : SoundExpression n p) {e : Expr}
    (h : primary p ts = (.ok e, rest)) : Derives n (.primary e) ts rest := by
  simp only [primary, bind_eq_ok, token_eq_ok] at h
  obtain ⟨⟨kind, span⟩, mid, rfl, h⟩ := h
  cases kind with
  | number x =>
    obtain ⟨rfl, rfl⟩ := pure_eq_ok.mp h
    exact .number
  | text s =>
    obtain ⟨rfl, rfl⟩ := pure_eq_ok.mp h
    exact .text
  | identifier id =>
    -- the two words for truth values are no names
    by_cases htrue : id = "true"
    · subst htrue
      obtain ⟨rfl, rfl⟩ := pure_eq_ok.mp h
      exact .truth
    · by_cases hfalse : id = "false"
      · subst hfalse
        obtain ⟨rfl, rfl⟩ := pure_eq_ok.mp h
        exact .falsehood
      · simp only at h
        obtain ⟨rfl, rfl⟩ := pure_eq_ok.mp h
        exact .name htrue hfalse
  | keyword k =>
    cases k with
    | print =>
      obtain ⟨rfl, rfl⟩ := pure_eq_ok.mp h
      exact .builtin
    | _ => exact absurd h fail_ne_ok
  | mark m =>
    cases m with
    | leftParen =>
      simp only [bind_eq_ok, expect_eq_ok, pure_eq_ok] at h
      obtain ⟨inner, _, hinner, closing, _, rfl, rfl, rfl⟩ := h
      exact .parentheses (hp hinner)
    | _ => exact absurd h fail_ne_ok
  | _ => exact absurd h fail_ne_ok

theorem arguments_sound {p : Parser Expr} (hp : SoundExpression n p) {es : List Expr}
    (h : commaList p ts = (.ok es, rest)) : Derives n (.arguments es) ts rest := by
  obtain ⟨rfl, rfl⟩ | h := of_commaList h
  · exact .noArguments
  · refine .someArguments (of_commaSeparated (P := fun es => Derives n (.expressions es))
      (fun e ts rest he => .oneExpression (hp he)) (fun e es span ts mid rest he hes => ?_) _ h)
    exact .moreExpressions (hp he) hes

/-- Argument lists are read **until no parenthesis opens**. -/
theorem calls_sound {p : Parser Expr} (hp : SoundExpression n p) (turns : Nat) {callee e : Expr}
    (hcallee : Derives n (.call callee) ts' ts) (hturns : ts.length ≤ turns)
    (h : calls p turns callee ts = (.ok e, rest)) :
    Derives n (.call e) ts' rest ∧ Closed InfixOp.levelCount rest := by
  induction turns generalizing callee ts with
  | zero =>
    obtain ⟨rfl, rfl⟩ := pure_eq_ok.mp h
    -- with the turns the tokens have come to an end
    obtain rfl := List.eq_nil_of_length_eq_zero (Nat.le_zero.mp hturns)
    exact ⟨hcallee, nofun⟩
  | succ turns ih =>
    simp only [calls, bind_eq_ok, ite_apply] at h
    obtain ⟨found, mid, haccept, h⟩ := h
    cases found with
    | true =>
      obtain ⟨opening, rfl⟩ := accept_eq_ok.mp haccept
      simp only [if_true, bind_eq_ok, expect_eq_ok] at h
      obtain ⟨args, _, hargs, closing, mid', rfl, h⟩ := h
      have hderives := arguments_sound hp hargs
      refine ih (.application hcallee hderives) ?_ h
      -- the parentheses are two tokens, so one turn fewer is enough for the rest
      have := hderives.takes.length_le
      simp only [List.length_cons] at this hturns
      omega
    | false =>
      obtain ⟨hnot, rfl⟩ := accept_eq_ok.mp haccept
      obtain ⟨rfl, rfl⟩ := pure_eq_ok.mp h
      refine ⟨hcallee, fun t ht => ⟨fun hk => hnot ?_, fun op _ => op.level_lt⟩⟩
      exact head?_kind_eq_some.mp (by rw [Option.mem_def.mp ht, Option.map_some, hk])

/-- The unary level, given readers **one level of nesting further in**. -/
theorem unaryLevel_sound {operand p : Parser Expr} (hp : SoundExpression n p)
    (hoperand : ∀ ⦃ts e rest⦄, operand ts = (.ok e, rest) → ∃ m, n = m + 1 ∧ SoundUnary m operand) :
    SoundUnary n (unaryLevel operand p) := by
  intro ts e rest h
  simp only [unaryLevel, bind_eq_ok] at h
  obtain ⟨found, mid, hfound, h⟩ := h
  cases found with
  | some op =>
    obtain ⟨kind, rfl, hop⟩ := unaryOperator_eq_some.mp hfound
    simp only [bind_eq_ok, pure_eq_ok] at h
    obtain ⟨inner, _, hinner, rfl, rfl⟩ := h
    obtain ⟨m, rfl, hm⟩ := hoperand hinner
    obtain ⟨hderives, hclosed⟩ := hm hinner
    exact ⟨.signed hop hderives, hclosed⟩
  | none =>
    obtain ⟨-, rfl⟩ := unaryOperator_eq_none.mp hfound
    simp only [bind_eq_ok, turns_eq_ok] at h
    obtain ⟨callee, mid, hcallee, h⟩ := h
    obtain ⟨hderives, hclosed⟩ := calls_sound hp _ (.callee (primary_sound hp hcallee))
      (Nat.le_refl _) h
    exact ⟨.unsigned hderives, hclosed⟩

/-- Operators of a level are read **until there is none**. -/
theorem chain_sound {l : Nat} {operand : Parser Expr} (hoperand : SoundLevel n (l + 1) operand)
    (turns : Nat) {left e : Expr} (hleft : Derives n (.level l left) ts' ts)
    (hclosed : Closed (l + 1) ts) (hturns : ts.length ≤ turns)
    (h : chain operand l turns left ts = (.ok e, rest)) :
    Derives n (.level l e) ts' rest ∧ Closed l rest := by
  induction turns generalizing left ts with
  | zero =>
    obtain ⟨rfl, rfl⟩ := pure_eq_ok.mp h
    obtain rfl := List.eq_nil_of_length_eq_zero (Nat.le_zero.mp hturns)
    exact ⟨hleft, nofun⟩
  | succ turns ih =>
    simp only [chain, bind_eq_ok] at h
    obtain ⟨found, mid, hfound, h⟩ := h
    cases found with
    | none =>
      obtain ⟨hnot, rfl⟩ := infixAt_eq_none.mp hfound
      obtain ⟨rfl, rfl⟩ := pure_eq_ok.mp h
      refine ⟨hleft, fun t ht => ⟨(hclosed t ht).1, fun op hop => ?_⟩⟩
      -- the last operand leaves none of a tighter level, and the turn found none of this one
      have hle := (hclosed t ht).2 op hop
      have hne : op.level ≠ l := fun hl => hnot ⟨t, ht, op, hop, hl⟩
      omega
    | some op =>
      obtain ⟨kind, span, rfl, hop, rfl⟩ := infixAt_eq_some.mp hfound
      simp only [bind_eq_ok] at h
      obtain ⟨right, mid', hright, h⟩ := h
      obtain ⟨hderives, hclosed'⟩ := hoperand hright
      refine ih (.operation hop hleft hderives) hclosed' ?_ h
      have := hderives.takes.length_le
      simp only [List.length_cons] at hturns
      omega

theorem infixLevel_sound {l : Nat} (hl : l < InfixOp.levelCount) {operand : Parser Expr}
    (hoperand : SoundLevel n (l + 1) operand) : SoundLevel n l (infixLevel l operand) := by
  intro ts e rest h
  simp only [infixLevel, bind_eq_ok, turns_eq_ok] at h
  obtain ⟨left, mid, hleft, h⟩ := h
  obtain ⟨hderives, hclosed⟩ := hoperand hleft
  exact chain_sound hoperand _ (.operand hl hderives) hclosed (Nat.le_refl _) h

theorem levelsFrom_sound {operand : Parser Expr}
    (hoperand : SoundLevel n InfixOp.levelCount operand) :
    ∀ k l, l + k = InfixOp.levelCount → SoundLevel n l (levelsFrom l operand)
  | 0, l, hl => by
    obtain rfl : l = InfixOp.levelCount := hl
    rw [levelsFrom_levelCount]
    exact hoperand
  | k + 1, l, hl => by
    have hlt : l < InfixOp.levelCount := by omega
    rw [levelsFrom_of_lt hlt]
    exact infixLevel_sound hlt (levelsFrom_sound hoperand k (l + 1) (by omega))

theorem expression_sound_of_unary (h : SoundUnary n (unary n)) :
    SoundExpression (n + 1) (expression (n + 1)) := by
  intro ts e rest he
  rw [expression_succ] at he
  obtain ⟨hderives, hclosed⟩ := levelsFrom_sound
    (fun _ _ _ hu => ⟨.tightest (h hu).1, (h hu).2⟩) InfixOp.levelCount 0 rfl he
  exact .expression hderives (closed_zero_iff.mp hclosed)

/-- The unary level, **by the levels of nesting left**. -/
theorem unary_sound : ∀ n, SoundUnary n (unary n)
  | 0 => by
    rw [unary_zero]
    exact unaryLevel_sound (fun _ _ _ h => absurd h tooDeep_ne_ok)
      fun _ _ _ h => absurd h tooDeep_ne_ok
  | n + 1 => by
    rw [unary_succ]
    exact unaryLevel_sound (expression_sound_of_unary (unary_sound n))
      fun _ _ _ _ => ⟨n, rfl, unary_sound n⟩

/-- **Expressions that are read are derived.** -/
theorem expression_sound : ∀ n, SoundExpression n (expression n)
  | 0 => fun _ _ _ h => absurd h tooDeep_ne_ok
  | n + 1 => expression_sound_of_unary (unary_sound n)

/-! ### Statements -/

theorem parameters_sound {names : List (String × Span)}
    (h : commaList (identifier .parameterName) ts = (.ok names, rest)) :
    Derives n (.parameters (names.map Prod.fst)) ts rest := by
  obtain ⟨rfl, rfl⟩ | h := of_commaList h
  · exact .noParameters
  · refine .someParameters (of_commaSeparated
      (P := fun names => Derives n (.names (names.map Prod.fst)))
      (fun name ts rest hname => ?_) (fun name names span ts mid rest hname hnames => ?_) _ h)
    · obtain rfl := identifier_eq_ok.mp hname
      exact .oneName
    · obtain rfl := identifier_eq_ok.mp hname
      exact .moreNames hnames

/-- The reader gives **blocks** that the grammar derives. -/
def SoundBlock (n : Nat) (p : Parser Block) : Prop :=
  ∀ ⦃ts b rest⦄, p ts = (.ok b, rest) → Derives n (.block b) ts rest

/-- The reader gives **statements** that the grammar derives. -/
def SoundStatement (n : Nat) (p : Parser Stmt) : Prop :=
  ∀ ⦃ts s rest⦄, p ts = (.ok s, rest) → Derives n (.statement s) ts rest

section Statements

variable {p : Parser Expr} {q : Parser Block}

/-- The first token is of the kind that was seen. -/
theorem eq_of_head? {kind : Token.Kind} {word : Token}
    (h : (word :: ts).head?.map Token.kind = some kind) : word = ⟨kind, word.span⟩ := by
  simp only [List.head?_cons, Option.map_some, Option.some.injEq] at h
  rw [← h]

theorem declaration_sound (hp : SoundExpression n p) {s : Stmt}
    (hword : ts.head?.map Token.kind = some (.keyword .declare))
    (h : declaration p ts = (.ok s, rest)) : Derives n (.bare s) ts rest := by
  simp only [declaration, bind_eq_ok, token_eq_ok, identifier_eq_ok, ite_apply] at h
  obtain ⟨word, _, rfl, ⟨name, span⟩, mid, rfl, found, mid', haccept, h⟩ := h
  rw [eq_of_head? hword]
  cases found with
  | true =>
    obtain ⟨sign, rfl⟩ := accept_eq_ok.mp haccept
    simp only [if_true, bind_eq_ok, pure_eq_ok] at h
    obtain ⟨e, _, he, rfl, rfl⟩ := h
    exact .declareAs (hp he)
  | false =>
    obtain ⟨-, rfl⟩ := accept_eq_ok.mp haccept
    obtain ⟨rfl, rfl⟩ := pure_eq_ok.mp h
    exact .declare

theorem printing_sound (hp : SoundExpression n p) {s : Stmt}
    (hword : ts.head?.map Token.kind = some (.keyword .print))
    (h : printing p ts = (.ok s, rest)) : Derives n (.bare s) ts rest := by
  simp only [printing, bind_eq_ok, token_eq_ok, pure_eq_ok] at h
  obtain ⟨word, _, rfl, e, _, he, rfl, rfl⟩ := h
  rw [eq_of_head? hword]
  exact .print (hp he)

theorem conditional_sound (hp : SoundExpression n p) (hq : SoundBlock n q) {s : Stmt}
    (hword : ts.head?.map Token.kind = some (.keyword .ifK))
    (h : conditional p q ts = (.ok s, rest)) : Derives n (.bare s) ts rest := by
  simp only [conditional, bind_eq_ok, token_eq_ok, ite_apply] at h
  obtain ⟨word, _, rfl, test, _, htest, b, mid, hb, found, mid', haccept, h⟩ := h
  rw [eq_of_head? hword]
  cases found with
  | true =>
    obtain ⟨span, rfl⟩ := accept_eq_ok.mp haccept
    simp only [if_true, bind_eq_ok, pure_eq_ok] at h
    obtain ⟨c, _, hc, rfl, rfl⟩ := h
    exact .alternative (hp htest) (hq hb) (hq hc)
  | false =>
    obtain ⟨-, rfl⟩ := accept_eq_ok.mp haccept
    obtain ⟨rfl, rfl⟩ := pure_eq_ok.mp h
    exact .conditional (hp htest) (hq hb)

theorem loop_sound (hp : SoundExpression n p) (hq : SoundBlock n q) {s : Stmt}
    (hword : ts.head?.map Token.kind = some (.keyword .whileK))
    (h : loop p q ts = (.ok s, rest)) : Derives n (.bare s) ts rest := by
  simp only [loop, bind_eq_ok, token_eq_ok, pure_eq_ok] at h
  obtain ⟨word, _, rfl, test, _, htest, b, _, hb, rfl, rfl⟩ := h
  rw [eq_of_head? hword]
  exact .loop (hp htest) (hq hb)

theorem function_sound (hq : SoundBlock n q) {s : Stmt}
    (hword : ts.head?.map Token.kind = some (.keyword .function))
    (h : function q ts = (.ok s, rest)) : Derives n (.bare s) ts rest := by
  simp only [function, bind_eq_ok, token_eq_ok, identifier_eq_ok, expect_eq_ok, pure_eq_ok] at h
  obtain ⟨word, _, rfl, ⟨name, span⟩, _, rfl, opening, _, rfl, h⟩ := h
  obtain ⟨params, _, hparams, closing, _, rfl, b, _, hb, rfl, rfl⟩ := h
  rw [eq_of_head? hword]
  exact .function (parameters_sound hparams) (hq hb)

theorem exit_sound (hp : SoundExpression n p) {s : Stmt}
    (hword : ts.head?.map Token.kind = some (.keyword .returnK))
    (h : exit p ts = (.ok s, rest)) : Derives n (.bare s) ts rest := by
  simp only [exit, bind_eq_ok, token_eq_ok, pure_eq_ok] at h
  obtain ⟨word, _, rfl, e, _, he, rfl, rfl⟩ := h
  rw [eq_of_head? hword]
  exact .exit (hp he)

/-- A statement is **what its first word says**. -/
theorem bareStatement_sound (hp : SoundExpression n p) (hq : SoundBlock n q) {s : Stmt}
    (h : bareStatement p q ts = (.ok s, rest)) : Derives n (.bare s) ts rest := by
  simp only [bareStatement, bind_eq_ok, peek_eq_ok] at h
  obtain ⟨kind, _, ⟨hkind, rfl⟩, h⟩ := h
  split at h
  · exact declaration_sound hp hkind h
  · exact printing_sound hp hkind h
  · exact conditional_sound hp hq hkind h
  · exact loop_sound hp hq hkind h
  · exact function_sound hq hkind h
  · exact exit_sound hp hkind h
  · simp only [bind_eq_ok, pure_eq_ok] at h
    obtain ⟨b, _, hb, rfl, rfl⟩ := h
    exact .blockAlone (hq hb)
  · next hprint _ _ _ _ _ =>
    -- the word for printing was tried before
    simp only [bind_eq_ok, pure_eq_ok] at h
    obtain ⟨e, _, he, rfl, rfl⟩ := h
    exact .expressionAlone (hp he) fun hnext => hprint (hkind ▸ head?_kind_eq_some.mpr hnext)

theorem statementOf_sound (hp : SoundExpression n p) (hq : SoundBlock n q) :
    SoundStatement n (statementOf p q) := by
  intro ts s rest h
  simp only [statementOf, bind_eq_ok] at h
  obtain ⟨s', mid, hs, found, mid', haccept, h⟩ := h
  obtain ⟨rfl, rfl⟩ := pure_eq_ok.mp h
  have hbare := bareStatement_sound hp hq hs
  cases found with
  | true =>
    obtain ⟨span, rfl⟩ := accept_eq_ok.mp haccept
    exact .terminated hbare
  | false =>
    obtain ⟨-, rfl⟩ := accept_eq_ok.mp haccept
    exact .plain hbare

theorem statementsInBlock_sound {r : Parser Stmt} (hr : SoundStatement n r) {ss : List Stmt}
    (turns : Nat) (h : statementsInBlock r turns ts = (.ok ss, rest)) :
    Derives n (.statements ss) ts rest := by
  induction turns generalizing ss ts with
  | zero => exact absurd h fail_ne_ok
  | succ turns ih =>
    simp only [statementsInBlock, bind_eq_ok, peek_eq_ok, ite_apply] at h
    obtain ⟨kind, _, ⟨-, rfl⟩, h⟩ := h
    split at h
    · obtain ⟨rfl, rfl⟩ := pure_eq_ok.mp h
      exact .noStatements
    · simp only [bind_eq_ok, atEnd_eq_ok, ite_apply] at h
      obtain ⟨ended, _, ⟨-, rfl⟩, h⟩ := h
      split at h
      · exact absurd h fail_ne_ok
      · simp only [bind_eq_ok, pure_eq_ok] at h
        obtain ⟨s, mid, hs, ss', _, hss, rfl, rfl⟩ := h
        exact .moreStatements (hr hs) (ih hss)

theorem braced_sound {r : Parser Stmt} (hr : SoundStatement n r) :
    SoundBlock (n + 1) (braced r) := by
  intro ts b rest h
  simp only [braced, bind_eq_ok, expect_eq_ok, turns_eq_ok, pure_eq_ok] at h
  obtain ⟨opening, _, rfl, ss, _, hss, closing, _, rfl, rfl, rfl⟩ := h
  exact .block (statementsInBlock_sound hr _ hss)

end Statements

/-- Blocks, **by the levels of nesting left**. -/
theorem block_sound : ∀ n, SoundBlock n (block n)
  | 0 => fun _ _ _ h => absurd h tooDeep_ne_ok
  | n + 1 => braced_sound (statementOf_sound (expression_sound n) (block_sound n))

/-- **Statements that are read are derived.** -/
theorem statement_sound (n : Nat) : SoundStatement n (statement n) :=
  statementOf_sound (expression_sound n) (block_sound n)

/-! ### Programs -/

/-- Statements are read **until the end of the input**. -/
theorem statementsToEnd_sound {r : Parser Stmt} (hr : SoundStatement n r) {ss : List Stmt}
    (turns : Nat) (hturns : ts.length ≤ turns)
    (h : statementsToEnd r turns ts = (.ok ss, rest)) :
    Derives n (.statements ss) ts rest ∧ AtEnd rest := by
  induction turns generalizing ss ts with
  | zero =>
    obtain ⟨rfl, rfl⟩ := pure_eq_ok.mp h
    obtain rfl := List.eq_nil_of_length_eq_zero (Nat.le_zero.mp hturns)
    exact ⟨.noStatements, nofun⟩
  | succ turns ih =>
    simp only [statementsToEnd, bind_eq_ok, atEnd_eq_ok, ite_apply] at h
    obtain ⟨ended, _, ⟨hended, rfl⟩, h⟩ := h
    split at h
    · next hend =>
      obtain ⟨rfl, rfl⟩ := pure_eq_ok.mp h
      exact ⟨.noStatements, hended.mp hend⟩
    · simp only [bind_eq_ok, pure_eq_ok] at h
      obtain ⟨s, mid, hs, ss', _, hss, rfl, rfl⟩ := h
      have := (hr hs).takes.length_le
      simp only [Phrase.size] at this
      obtain ⟨hderives, hend⟩ := ih (by omega) hss
      exact ⟨.moreStatements (hr hs) hderives, hend⟩

end Parser

/-- Where the end of the input is marked once, it is **the last token** that is left. -/
theorem Takes.eq_of_atEnd {k : Nat} {body rest : List Token} {span : Span}
    (h : Takes k (body ++ [⟨.endOfInput, span⟩]) rest) (hbody : ∀ t ∈ body, t.kind ≠ .endOfInput)
    (hend : Parser.AtEnd rest) : rest = [⟨.endOfInput, span⟩] := by
  obtain ⟨taken, heq, -, htaken⟩ := h
  -- neither can the mark have been taken, nor can a token before it be taken for the mark
  rcases List.append_eq_append_iff.mp heq with ⟨between, rfl, hrest⟩ | ⟨between, rfl, rfl⟩
  · cases between with
    | nil => exact hrest.symm
    | cons t _ =>
      obtain ⟨rfl, -⟩ := List.cons.inj hrest
      exact absurd rfl (htaken _ (List.mem_append_right _ (List.mem_cons_self ..)))
  · cases between with
    | nil => rfl
    | cons t _ =>
      exact absurd (hend t rfl) (hbody t (List.mem_append_right _ (List.mem_cons_self ..)))

/-- **What is parsed is spelled by the tokens**, if the end of the input is marked once. -/
theorem Program.spelled_of_parse {body : List Token} {span : Span} {p : Program}
    (hbody : ∀ t ∈ body, t.kind ≠ .endOfInput)
    (h : parse (body ++ [⟨.endOfInput, span⟩]) = .ok p) :
    p.Spelled (body ++ [⟨.endOfInput, span⟩]) := by
  have hprogram : Parser.program (body ++ [⟨.endOfInput, span⟩]) = (.ok p, _) := Prod.ext h rfl
  simp only [Parser.program, Parser.bind_eq_ok, Parser.turns_eq_ok, Parser.pure_eq_ok] at hprogram
  obtain ⟨ss, rest, hss, rfl, -⟩ := hprogram
  obtain ⟨hderives, hend⟩ := Parser.statementsToEnd_sound (Parser.statement_sound nestingLimit) _
    (Nat.le_refl _) hss
  exact ⟨span, hderives.takes.eq_of_atEnd hbody hend ▸ hderives⟩

end ScopeScript
