import ScopeScript.Proofs.Relocation

/-!
# Spans are not read

Readers look at the kinds of tokens only. Where the spans of the tokens are changed, they take the
same tokens and come to the same end, **be it a result or an error**, with the spans in it changed
alike (`ScopeScript.parse_mapSpan`). Of the change it is asked that it goes along with merging, and
that it leaves the span alone that stands for no place.

A reader that is given what an earlier one has read is given it with its spans changed. So the
statement is one about two readers, of which the second mirrors the first
(`ScopeScript.Parser.Mirrors`), and it composes along their steps.
-/

namespace ScopeScript

/-- The same error with its spans changed. -/
def ParseError.mapSpan (f : Span → Span) : ParseError → ParseError
  | misplaced found expected => misplaced (found.mapSpan f) expected
  | cutShort expected => cutShort expected
  | nestedTooDeep span => nestedTooDeep (f span)

theorem Expr.mapSpanAll_eq_map (f : Span → Span) (es : List Expr) :
    Expr.mapSpanAll f es = es.map (Expr.mapSpan f) := by
  induction es with
  | nil => rfl
  | cons e es ih => rw [Expr.mapSpanAll, ih, List.map_cons]

theorem Stmt.mapSpanAll_eq_map (f : Span → Span) (ss : List Stmt) :
    Stmt.mapSpanAll f ss = ss.map (Stmt.mapSpan f) := by
  induction ss with
  | nil => rfl
  | cons s ss ih => rw [Stmt.mapSpanAll, ih, List.map_cons]

namespace Parser

variable {α β : Type} {f : Span → Span}

/-- What a reader comes to, **with the spans changed** in it and in the tokens left. -/
def moved (f : Span → Span) (g : α → α) :
    Except ParseError α × List Token → Except ParseError α × List Token
  | (.ok a, rest) => (.ok (g a), rest.map (Token.mapSpan f))
  | (.error e, rest) => (.error (e.mapSpan f), rest.map (Token.mapSpan f))

/-- Where the spans of the tokens are changed, **the second reader does what the first does** where
they are not. -/
def Mirrors (f : Span → Span) (g : α → α) (p q : Parser α) : Prop :=
  ∀ ts, q (ts.map (Token.mapSpan f)) = moved f g (p ts)

namespace Mirrors

variable {g : α → α} {h : β → β} {p q : Parser α} {k k' : α → Parser β}

protected theorem pure {a b : α} (hab : g a = b) : Mirrors f g (pure a) (pure b) := by
  rintro ts
  subst hab
  rfl

/-- One reader **after the other**. -/
theorem bind (hp : Mirrors f g p q) (hk : ∀ a, Mirrors f h (k a) (k' (g a))) :
    Mirrors f h (p >>= k) (q >>= k') := by
  intro ts
  have hq := hp ts
  rcases hpts : p ts with ⟨_ | a, rest⟩
  · rw [hpts] at hq
    rw [bind_apply_of_error hq, bind_apply_of_error hpts]
    rfl
  · rw [hpts] at hq
    rw [bind_apply_of_ok hq, bind_apply_of_ok hpts]
    exact hk a rest

theorem fail {e e' : ParseError} (he : e.mapSpan f = e') : Mirrors f g (fail e) (fail e') := by
  rintro ts
  subst he
  rfl

theorem ite {c : Prop} [Decidable c] {p' q' : Parser α} (hp : Mirrors f g p q)
    (hp' : Mirrors f g p' q') : Mirrors f g (if c then p else p') (if c then q else q') := by
  split
  · exact hp
  · exact hp'

/-! ### Single tokens -/

theorem mapSpan_mismatch (t : Token) (expected : Expected) :
    (mismatch t expected).mapSpan f = mismatch (t.mapSpan f) expected := by
  rw [Parser.mismatch, Parser.mismatch, apply_ite (ParseError.mapSpan f)]
  rfl

theorem mismatch (t : Token) (expected : Expected) :
    Mirrors f g (Parser.fail (Parser.mismatch t expected))
      (Parser.fail (Parser.mismatch (t.mapSpan f) expected)) :=
  fail (mapSpan_mismatch t expected)

theorem peek : Mirrors f id peek peek := by
  rintro (_ | ⟨t, ts⟩) <;> rfl

theorem atEnd : Mirrors f id atEnd atEnd := by
  rintro (_ | ⟨t, ts⟩) <;> rfl

theorem token (expected : Expected) :
    Mirrors f (Token.mapSpan f) (token expected) (token expected) := by
  rintro (_ | ⟨t, ts⟩) <;> rfl

theorem expect (kind : Token.Kind) (expected : Expected) :
    Mirrors f f (expect kind expected) (expect kind expected) :=
  (token expected).bind fun t => .ite (.pure rfl) (mismatch t expected)

theorem identifier (expected : Expected) :
    Mirrors f (Prod.map id f) (identifier expected) (identifier expected) := by
  refine (token expected).bind fun ⟨kind, span⟩ => ?_
  cases kind with
  | identifier name => exact .pure rfl
  | _ => exact mismatch _ expected

theorem accept (kind : Token.Kind) : Mirrors f id (accept kind) (accept kind) := by
  rintro (_ | ⟨t, ts⟩)
  · rfl
  · simp only [Parser.accept, List.map_cons, Token.mapSpan]
    split <;> rfl

theorem infixAt (level : Nat) : Mirrors f id (infixAt level) (infixAt level) := by
  rintro (_ | ⟨⟨kind, span⟩, ts⟩)
  · rfl
  · simp only [Parser.infixAt, List.map_cons, Token.mapSpan]
    split
    · split <;> rfl
    · rfl

theorem unaryOperator :
    Mirrors f (Option.map (Prod.map id f)) unaryOperator unaryOperator := by
  rintro (_ | ⟨⟨kind, span⟩, ts⟩)
  · rfl
  · simp only [Parser.unaryOperator, List.map_cons, Token.mapSpan]
    split <;> rfl

/-- The error for nesting too deep is the only one that may **stand for no place**. -/
theorem tooDeep (hnone : f .none = .none) : Mirrors f g tooDeep tooDeep := by
  rintro (_ | ⟨t, ts⟩)
  · simp [Parser.tooDeep, moved, ParseError.mapSpan, hnone]
  · rfl

/-! ### Repetitions -/

theorem turns {r r' : Nat → Parser α} (hr : ∀ n, Mirrors f g (r n) (r' n)) :
    Mirrors f g (turns r) (turns r') := by
  intro ts
  rw [Parser.turns, Parser.turns, List.length_map]
  exact hr ts.length ts

theorem commaSeparated {item : Parser α} (hitem : Mirrors f g item item) :
    ∀ n, Mirrors f (List.map g) (commaSeparated item n) (commaSeparated item n)
  | 0 => hitem.bind fun _ => .pure rfl
  | n + 1 => hitem.bind fun _ => (accept _).bind fun _ =>
    .ite ((commaSeparated hitem n).bind fun _ => .pure rfl) (.pure rfl)

theorem commaList {item : Parser α} (hitem : Mirrors f g item item) :
    Mirrors f (List.map g) (commaList item) (commaList item) :=
  peek.bind fun _ => .ite (.pure rfl) (turns (commaSeparated hitem))

/-! ### Expressions -/

section Expressions

variable {operand e : Parser Expr}

theorem chain (hf : Merges f) (hoperand : Mirrors f (Expr.mapSpan f) operand operand) (l : Nat) :
    ∀ n left, Mirrors f (Expr.mapSpan f) (chain operand l n left)
      (chain operand l n (left.mapSpan f))
  | 0, left => .pure rfl
  | n + 1, left => (infixAt l).bind fun
    | none => .pure rfl
    | some op => hoperand.bind fun right => by
      have hchain := chain hf hoperand l n (op.node left right)
      rwa [InfixOp.mapSpan_node hf] at hchain

theorem infixLevel (hf : Merges f) (hoperand : Mirrors f (Expr.mapSpan f) operand operand)
    (l : Nat) : Mirrors f (Expr.mapSpan f) (infixLevel l operand) (infixLevel l operand) :=
  hoperand.bind fun left => turns fun n => chain hf hoperand l n left

theorem infixLevels (hf : Merges f) (hoperand : Mirrors f (Expr.mapSpan f) operand operand) :
    Mirrors f (Expr.mapSpan f) (infixLevels operand) (infixLevels operand) := by
  rw [Parser.infixLevels]
  generalize List.range InfixOp.levelCount = levels
  induction levels with
  | nil => exact hoperand
  | cons l levels ih => exact infixLevel hf ih l

theorem primary (hf : Merges f) (he : Mirrors f (Expr.mapSpan f) e e) :
    Mirrors f (Expr.mapSpan f) (primary e) (primary e) := by
  refine (token _).bind fun ⟨kind, span⟩ => ?_
  cases kind with
  | number | text => exact .pure rfl
  | identifier id =>
    simp only [Token.mapSpan]
    split <;> first | exact .pure rfl | exact mismatch _ _ | contradiction
  | keyword w =>
    cases w with
    | print => exact .pure rfl
    | _ => exact mismatch _ _
  | mark m =>
    cases m with
    | leftParen =>
      exact he.bind fun inner => (expect _ _).bind fun close => .pure (by simp [hf _ _])
    | _ => exact mismatch _ _
  | operator | endOfInput => exact mismatch _ _

theorem calls (hf : Merges f) (he : Mirrors f (Expr.mapSpan f) e e) :
    ∀ n callee, Mirrors f (Expr.mapSpan f) (calls e n callee)
      (calls e n (callee.mapSpan f))
  | 0, callee => .pure rfl
  | n + 1, callee => (accept _).bind fun _ => .ite
    ((commaList he).bind fun args => (expect _ _).bind fun close => by
      have hcall : (Expr.call callee args (callee.span.merge close)).mapSpan f =
          .call (callee.mapSpan f) (args.map (Expr.mapSpan f))
            ((callee.mapSpan f).span.merge (f close)) := by
        rw [Expr.mapSpan, Expr.mapSpanAll_eq_map, Expr.span_mapSpan, hf]
      exact hcall ▸ calls hf he n _)
    (.pure rfl)

theorem unaryLevel (hf : Merges f) (hoperand : Mirrors f (Expr.mapSpan f) operand operand)
    (he : Mirrors f (Expr.mapSpan f) e e) :
    Mirrors f (Expr.mapSpan f) (unaryLevel operand e) (unaryLevel operand e) :=
  unaryOperator.bind fun
    | none => (primary hf he).bind fun callee =>
      turns fun n => calls hf he n callee
    | some (op, span) => hoperand.bind fun _ => .pure (by simp [Expr.mapSpan, hf _ _])

theorem unary (hf : Merges f) (hnone : f .none = .none) :
    ∀ n, Mirrors f (Expr.mapSpan f) (unary n) (unary n)
  | 0 => unaryLevel hf (tooDeep hnone) (tooDeep hnone)
  | n + 1 => unaryLevel hf (unary hf hnone n) (infixLevels hf (unary hf hnone n))

theorem expression (hf : Merges f) (hnone : f .none = .none) :
    ∀ n, Mirrors f (Expr.mapSpan f) (expression n) (expression n)
  | 0 => tooDeep hnone
  | n + 1 => infixLevels hf (unary hf hnone n)

end Expressions

/-! ### Statements -/

section Statements

variable {e : Parser Expr} {b : Parser Block} {s : Parser Stmt}

theorem declaration (hf : Merges f) (he : Mirrors f (Expr.mapSpan f) e e) :
    Mirrors f (Stmt.mapSpan f) (declaration e) (declaration e) :=
  (token _).bind fun word => (identifier _).bind fun (name, span) => (accept _).bind fun _ => .ite
    (he.bind fun value => .pure (by simp [Stmt.mapSpan, Token.mapSpan, hf _ _]))
    (.pure (by simp [Stmt.mapSpan, Token.mapSpan, hf _ _]))

theorem printing (hf : Merges f) (he : Mirrors f (Expr.mapSpan f) e e) :
    Mirrors f (Stmt.mapSpan f) (printing e) (printing e) :=
  (token _).bind fun word => he.bind fun value =>
    .pure (by simp [Stmt.mapSpan, Token.mapSpan, hf _ _])

theorem conditional (hf : Merges f) (he : Mirrors f (Expr.mapSpan f) e e)
    (hb : Mirrors f (Block.mapSpan f) b b) :
    Mirrors f (Stmt.mapSpan f) (conditional e b) (conditional e b) :=
  (token _).bind fun word => he.bind fun test => hb.bind fun consequent =>
    (accept _).bind fun _ => .ite
      (hb.bind fun alternate => .pure (by simp [Stmt.mapSpan, Token.mapSpan, hf _ _]))
      (.pure (by simp [Stmt.mapSpan, Token.mapSpan, hf _ _]))

theorem loop (hf : Merges f) (he : Mirrors f (Expr.mapSpan f) e e)
    (hb : Mirrors f (Block.mapSpan f) b b) : Mirrors f (Stmt.mapSpan f) (loop e b) (loop e b) :=
  (token _).bind fun word => he.bind fun test => hb.bind fun body =>
    .pure (by simp [Stmt.mapSpan, Token.mapSpan, hf _ _])

theorem function (hf : Merges f) (hb : Mirrors f (Block.mapSpan f) b b) :
    Mirrors f (Stmt.mapSpan f) (function b) (function b) :=
  (token _).bind fun word => (identifier _).bind fun (name, _) => (expect _ _).bind fun _ =>
    (commaList (identifier _)).bind fun params => (expect _ _).bind fun _ => hb.bind fun body =>
      .pure (by simp [Stmt.mapSpan, Token.mapSpan, hf _ _])

theorem exit (hf : Merges f) (he : Mirrors f (Expr.mapSpan f) e e) :
    Mirrors f (Stmt.mapSpan f) (exit e) (exit e) :=
  (token _).bind fun word => he.bind fun value =>
    .pure (by simp [Stmt.mapSpan, Token.mapSpan, hf _ _])

theorem bareStatement (hf : Merges f) (he : Mirrors f (Expr.mapSpan f) e e)
    (hb : Mirrors f (Block.mapSpan f) b b) :
    Mirrors f (Stmt.mapSpan f) (bareStatement e b) (bareStatement e b) := by
  refine peek.bind fun kind => ?_
  simp only [id]
  split
  · exact declaration hf he
  · exact printing hf he
  · exact conditional hf he hb
  · exact loop hf he hb
  · exact function hf hb
  · exact exit hf he
  · exact hb.bind fun _ => .pure rfl
  · exact he.bind fun _ => .pure rfl

theorem statementOf (hf : Merges f) (he : Mirrors f (Expr.mapSpan f) e e)
    (hb : Mirrors f (Block.mapSpan f) b b) :
    Mirrors f (Stmt.mapSpan f) (statementOf e b) (statementOf e b) :=
  (bareStatement hf he hb).bind fun _ => (accept _).bind fun _ => .pure rfl

theorem statementsInBlock (hs : Mirrors f (Stmt.mapSpan f) s s) :
    ∀ n, Mirrors f (Stmt.mapSpanAll f) (statementsInBlock s n) (statementsInBlock s n)
  | 0 => fail rfl
  | n + 1 => peek.bind fun _ => .ite (.pure rfl) (atEnd.bind fun _ => .ite (fail rfl)
    (hs.bind fun _ => (statementsInBlock hs n).bind fun _ => .pure rfl))

theorem braced (hf : Merges f) (hs : Mirrors f (Stmt.mapSpan f) s s) :
    Mirrors f (Block.mapSpan f) (braced s) (braced s) :=
  (expect _ _).bind fun opening => (turns (statementsInBlock hs)).bind fun ss =>
    (expect _ _).bind fun closing => .pure (by simp [Block.mapSpan, hf _ _])

theorem block (hf : Merges f) (hnone : f .none = .none) :
    ∀ n, Mirrors f (Block.mapSpan f) (block n) (block n)
  | 0 => tooDeep hnone
  | n + 1 => braced hf (statementOf hf (expression hf hnone n) (block hf hnone n))

theorem statement (hf : Merges f) (hnone : f .none = .none) (n : Nat) :
    Mirrors f (Stmt.mapSpan f) (statement n) (statement n) :=
  statementOf hf (expression hf hnone n) (block hf hnone n)

theorem statementsToEnd (hs : Mirrors f (Stmt.mapSpan f) s s) :
    ∀ n, Mirrors f (Stmt.mapSpanAll f) (statementsToEnd s n) (statementsToEnd s n)
  | 0 => .pure rfl
  | n + 1 => atEnd.bind fun _ => .ite (.pure rfl)
    (hs.bind fun _ => (statementsToEnd hs n).bind fun _ => .pure rfl)

theorem program (hf : Merges f) (hnone : f .none = .none) :
    Mirrors f (Program.mapSpan f) program program :=
  (turns (statementsToEnd (statement hf hnone nestingLimit))).bind fun _ => .pure rfl

end Statements

end Mirrors

end Parser

/-- **Spans are not read**: tokens with their spans changed spell the same program, or have the same
error, with the spans in it changed. -/
theorem parse_mapSpan {f : Span → Span} (hf : Merges f) (hnone : f .none = .none)
    (tokens : List Token) : parse (tokens.map (Token.mapSpan f)) =
      ((parse tokens).map (Program.mapSpan f)).mapError (ParseError.mapSpan f) := by
  rw [parse, parse, Parser.Mirrors.program hf hnone]
  rcases Parser.program tokens with ⟨_ | _, _⟩ <;> rfl

end ScopeScript
