import ScopeScript.Program.Parser

/-!
# A counter for the levels of nesting

The readers of nested constructs recur on the number of levels that are left, so that a reader one
level further in is another reader. The same grammar can be read by a machine that keeps **a counter
beside the tokens**: the counter goes up where a construct is entered, comes down where the reading
of it ends, and is passed on from each step to the next, behind errors too. Nothing in the type of
such a reader keeps it from leaving the counter anywhere else.

This file states the grammar in that form and shows that it reads what the other reads, and that
every reader, **from whatever depth it is called and however it ends**, leaves the counter where it
found it (`ScopeScript.Counting.Counts`). The relation is one between two readers and composes along
their steps.
-/

namespace ScopeScript

/-- **Where a reading stands**: the tokens that are left, and how many constructs it is inside. -/
structure Reading where
  /-- The tokens that are left. -/
  tokens : List Token
  /-- How many constructs have been entered and not been left. -/
  depth : Nat

/-- A reading **at its beginning**. -/
def Reading.fresh (tokens : List Token) : Reading :=
  ⟨tokens, 0⟩

/-- A reader that **counts the levels**. -/
def Counting (α : Type) : Type :=
  Reading → Except ParseError α × Reading

namespace Counting

variable {α β : Type}

instance : Monad Counting where
  pure a := fun r => (.ok a, r)
  bind p f := fun r =>
    match p r with
    | (.ok a, r') => f a r'
    | (.error e, r') => (.error e, r')

theorem bind_apply_of_ok {p : Counting α} {r r' : Reading} {a : α} (h : p r = (.ok a, r'))
    (f : α → Counting β) : (p >>= f) r = f a r' := by
  simp only [Bind.bind, h]

theorem bind_apply_of_error {p : Counting α} {r r' : Reading} {e : ParseError}
    (h : p r = (.error e, r')) (f : α → Counting β) : (p >>= f) r = (.error e, r') := by
  simp only [Bind.bind, h]

/-- Reads tokens and **has nothing to do with the counter**. -/
def plain (p : Parser α) : Counting α :=
  fun r => ((p r.tokens).1, ⟨(p r.tokens).2, r.depth⟩)

instance : MonadLift Parser Counting where
  monadLift := plain

/-- Reads **one level further in**, unless the limit is reached. The counter comes down again behind
a result and behind an error. -/
def nested (p : Counting α) : Counting α := fun r =>
  if nestingLimit ≤ r.depth then
    plain Parser.tooDeep r
  else
    let (a, r') := p ⟨r.tokens, r.depth + 1⟩
    (a, ⟨r'.tokens, r'.depth - 1⟩)

/-- Gives a repetition as many turns as there are tokens. -/
def turns (repetition : Nat → Counting α) : Counting α :=
  fun r => repetition r.tokens.length r

/-! ### The grammar -/

/-- Items separated by commas, at least one. -/
def commaSeparated (item : Counting α) : Nat → Counting (List α)
  | 0 => do return [← item]
  | n + 1 => do
    let x ← item
    if ← Parser.accept (.mark .comma) then
      return x :: (← commaSeparated item n)
    else
      return [x]

/-- Items separated by commas up to a closing parenthesis, perhaps none. -/
def commaList (item : Counting α) : Counting (List α) := do
  if (← Parser.peek) = some (.mark .rightParen) then
    return []
  else
    turns (commaSeparated item)

/-- Goes on from a left operand while operators of the level follow. -/
def chain (operand : Counting Expr) (level : Nat) : Nat → Expr → Counting Expr
  | 0, left => return left
  | n + 1, left => do
    match ← Parser.infixAt level with
    | none => return left
    | some op =>
      let right ← operand
      chain operand level n (op.node left right)

/-- Operands joined by the operators of one level. -/
def infixLevel (level : Nat) (operand : Counting Expr) : Counting Expr := do
  let left ← operand
  turns fun n => chain operand level n left

/-- Operands joined by infix operators of all levels. -/
def infixLevels (operand : Counting Expr) : Counting Expr :=
  (List.range InfixOp.levelCount).foldr infixLevel operand

/-- Literals, names, and expressions in parentheses. -/
def primary (expression : Counting Expr) : Counting Expr := do
  let t ← Parser.token .expression
  match t.kind with
  | .number x => return .literal (.number x) t.span
  | .text s => return .literal (.text s) t.span
  | .identifier "true" => return .literal (.boolean true) t.span
  | .identifier "false" => return .literal (.boolean false) t.span
  | .identifier id => return .name id t.span
  | .keyword .print => return .name Keyword.print.spelling t.span
  | .mark .leftParen =>
    let inner ← expression
    let close ← Parser.expect (.mark .rightParen) .closingParenthesis
    return inner.withSpan (t.span.merge close)
  | _ => Parser.fail (Parser.mismatch t .operand)

/-- Goes on from a callee while argument lists follow. -/
def calls (expression : Counting Expr) : Nat → Expr → Counting Expr
  | 0, callee => return callee
  | n + 1, callee => do
    if ← Parser.accept (.mark .leftParen) then
      let arguments ← commaList expression
      let close ← Parser.expect (.mark .rightParen) .closingArguments
      calls expression n (.call callee arguments (callee.span.merge close))
    else
      return callee

/-- A unary operator before an operand, or a primary expression with its calls. -/
def unaryLevel (operand expression : Counting Expr) : Counting Expr := do
  match ← Parser.unaryOperator with
  | some (op, span) =>
    let e ← operand
    return .unary op e (span.merge e.span)
  | none =>
    let callee ← primary expression
    turns fun n => calls expression n callee

/-- The unary level of expressions. The argument only bounds the recursion: it does not run out
before the counter has reached the limit. -/
def unary : Nat → Counting Expr
  | 0, r => unaryLevel (nested (plain Parser.tooDeep)) (nested (plain Parser.tooDeep)) r
  | n + 1, r => unaryLevel (nested (unary n)) (nested (infixLevels (unary n))) r

/-- An **expression**. -/
def expression (n : Nat) : Counting Expr :=
  nested (infixLevels (unary n))

/-- A declaration of a variable. -/
def declaration (expression : Counting Expr) : Counting Stmt := do
  let word ← Parser.token .expression
  let (name, nameSpan) ← Parser.identifier .variableName
  if ← Parser.accept (.mark .assign) then
    let e ← expression
    return .declare name (some e) (word.span.merge e.span)
  else
    return .declare name none (word.span.merge nameSpan)

/-- A print statement. -/
def printing (expression : Counting Expr) : Counting Stmt := do
  let word ← Parser.token .expression
  let e ← expression
  return .print e (word.span.merge e.span)

/-- A conditional, with or without another branch. -/
def conditional (expression : Counting Expr) (block : Counting Block) : Counting Stmt := do
  let word ← Parser.token .expression
  let test ← expression
  let consequent ← block
  if ← Parser.accept (.keyword .elseK) then
    let alternate ← block
    return .conditional test consequent (some alternate) (word.span.merge alternate.span)
  else
    return .conditional test consequent none (word.span.merge consequent.span)

/-- A loop. -/
def loop (expression : Counting Expr) (block : Counting Block) : Counting Stmt := do
  let word ← Parser.token .expression
  let test ← expression
  let body ← block
  return .loop test body (word.span.merge body.span)

/-- A declaration of a procedure. -/
def function (block : Counting Block) : Counting Stmt := do
  let word ← Parser.token .expression
  let (name, _) ← Parser.identifier .functionName
  let _ ← Parser.expect (.mark .leftParen) .openingParameters
  let params ← Parser.commaList (Parser.identifier .parameterName)
  let _ ← Parser.expect (.mark .rightParen) .closingParameters
  let body ← block
  return .function name (params.map Prod.fst) body (word.span.merge body.span)

/-- A return statement. -/
def exit (expression : Counting Expr) : Counting Stmt := do
  let word ← Parser.token .expression
  let e ← expression
  return .exit e (word.span.merge e.span)

/-- A statement without the semicolon that may follow. -/
def bareStatement (expression : Counting Expr) (block : Counting Block) : Counting Stmt := do
  match ← Parser.peek with
  | some (.keyword .declare) => declaration expression
  | some (.keyword .print) => printing expression
  | some (.keyword .ifK) => conditional expression block
  | some (.keyword .whileK) => loop expression block
  | some (.keyword .function) => function block
  | some (.keyword .returnK) => exit expression
  | some (.mark .leftBrace) => return .block (← block)
  | _ => return .expression (← expression)

/-- A statement, and a semicolon if one follows. -/
def statementOf (expression : Counting Expr) (block : Counting Block) : Counting Stmt := do
  let s ← bareStatement expression block
  let _ ← Parser.accept (.mark .semicolon)
  return s

/-- Statements up to a closing brace, which is not taken. -/
def statementsInBlock (statement : Counting Stmt) : Nat → Counting (List Stmt)
  | 0 => Parser.fail (.cutShort .closingBlock)
  | n + 1 => do
    if (← Parser.peek) = some (.mark .rightBrace) then
      return []
    else if ← Parser.atEnd then
      Parser.fail (.cutShort .closingBlock)
    else
      let s ← statement
      return s :: (← statementsInBlock statement n)

/-- Statements between braces. -/
def braced (statement : Counting Stmt) : Counting Block := do
  let opening ← Parser.expect (.mark .leftBrace) .openingBlock
  let statements ← turns (statementsInBlock statement)
  let closing ← Parser.expect (.mark .rightBrace) .closingBlock
  return .mk statements (opening.merge closing)

/-- A **block**; the argument bounds the recursion. -/
def block : Nat → Counting Block
  | 0, r => nested (plain Parser.tooDeep) r
  | n + 1, r => nested (braced (statementOf (expression n) (block n))) r

/-- A **statement**; the argument bounds the recursion. -/
def statement (n : Nat) : Counting Stmt :=
  statementOf (expression n) (block n)

/-! ### The two forms of the grammar -/

/-- Called at the given depth, the counting reader **does what the other does and leaves the counter
where it was**, whether it ends in a result or in an error. -/
def Counts (depth : Nat) (c : Counting α) (p : Parser α) : Prop :=
  ∀ ts, c ⟨ts, depth⟩ = ((p ts).1, ⟨(p ts).2, depth⟩)

namespace Counts

variable {d m n : Nat} {c : Counting α} {p : Parser α}

protected theorem pure (a : α) : Counts d (pure a) (pure a) :=
  fun _ => rfl

theorem plain (p : Parser α) : Counts d (plain p) p :=
  fun _ => rfl

/-- One reader **after the other**. -/
theorem bind {f : α → Counting β} {g : α → Parser β} (h : Counts d c p)
    (hf : ∀ a, Counts d (f a) (g a)) : Counts d (c >>= f) (p >>= g) := by
  intro ts
  have hc := h ts
  rcases hp : p ts with ⟨_ | a, rest⟩
  · rw [hp] at hc
    rw [Parser.bind_apply_of_error hp, bind_apply_of_error hc]
  · rw [hp] at hc
    rw [Parser.bind_apply_of_ok hp, bind_apply_of_ok hc]
    exact hf a rest

/-- A reader of tokens **before** the others. -/
theorem plain_bind {q : Parser α} {f : α → Counting β} {g : α → Parser β}
    (hf : ∀ a, Counts d (f a) (g a)) : Counts d (Counting.plain q >>= f) (q >>= g) :=
  (plain q).bind hf

theorem ite {P : Prop} [Decidable P] {c' : Counting α} {p' : Parser α} (h : Counts d c p)
    (h' : Counts d c' p') : Counts d (if P then c else c') (if P then p else p') := by
  split
  · exact h
  · exact h'

theorem turns {r : Nat → Counting α} {r' : Nat → Parser α} (h : ∀ n, Counts d (r n) (r' n)) :
    Counts d (turns r) (Parser.turns r') :=
  fun ts => h ts.length ts

/-- A level further in, **what comes up comes down**. -/
theorem nested (h : Counts (d + 1) c p) (hd : d < nestingLimit) : Counts d (nested c) p := by
  intro ts
  rw [Counting.nested, if_neg (Nat.not_le.mpr hd), h ts]
  rfl

/-- At the limit, no construct is entered. -/
theorem nested_of_le (hd : nestingLimit ≤ d) : Counts d (Counting.nested c) Parser.tooDeep := by
  intro ts
  rw [Counting.nested, if_pos hd]
  rfl

/-! ### Rules -/

section Rules

variable {operand e : Counting Expr} {operand' e' : Parser Expr} {b : Counting Block}
  {b' : Parser Block} {s : Counting Stmt} {s' : Parser Stmt}

theorem commaSeparated (h : Counts d c p) :
    ∀ n, Counts d (commaSeparated c n) (Parser.commaSeparated p n)
  | 0 => h.bind fun _ => .pure _
  | n + 1 => h.bind fun _ => plain_bind fun _ =>
    .ite ((commaSeparated h n).bind fun _ => .pure _) (.pure _)

theorem commaList (h : Counts d c p) : Counts d (commaList c) (Parser.commaList p) :=
  plain_bind fun _ => .ite (.pure _) (turns (commaSeparated h))

theorem chain (h : Counts d operand operand') (level : Nat) :
    ∀ n left, Counts d (chain operand level n left) (Parser.chain operand' level n left)
  | 0, left => .pure left
  | n + 1, left => plain_bind fun
    | none => .pure left
    | some op => h.bind fun right => chain h level n (op.node left right)

theorem infixLevels (h : Counts d operand operand') :
    Counts d (infixLevels operand) (Parser.infixLevels operand') := by
  rw [Counting.infixLevels, Parser.infixLevels]
  induction List.range InfixOp.levelCount with
  | nil => exact h
  | cons level levels ih => exact ih.bind fun left => turns fun n => chain ih level n left

theorem primary (h : Counts d e e') : Counts d (primary e) (Parser.primary e') := by
  refine plain_bind fun ⟨kind, span⟩ => ?_
  cases kind with
  | number | text => exact .pure _
  | identifier id =>
    by_cases htrue : id = "true"
    · subst htrue
      exact .pure _
    · by_cases hfalse : id = "false"
      · subst hfalse
        exact .pure _
      · simp only
        exact .pure _
  | keyword w =>
    cases w with
    | print => exact .pure _
    | _ => exact plain _
  | mark m =>
    cases m with
    | leftParen => exact h.bind fun _ => plain_bind fun _ => .pure _
    | _ => exact plain _
  | operator | endOfInput => exact plain _

theorem calls (h : Counts d e e') :
    ∀ n callee, Counts d (calls e n callee) (Parser.calls e' n callee)
  | 0, callee => .pure callee
  | n + 1, callee => plain_bind fun _ =>
    .ite ((commaList h).bind fun _ => plain_bind fun _ => calls h n _) (.pure callee)

theorem unaryLevel (hoperand : Counts d operand operand') (h : Counts d e e') :
    Counts d (unaryLevel operand e) (Parser.unaryLevel operand' e') :=
  plain_bind fun
    | some (_, _) => hoperand.bind fun _ => .pure _
    | none => (primary h).bind fun callee => turns fun n => calls h n callee

theorem declaration (h : Counts d e e') : Counts d (declaration e) (Parser.declaration e') :=
  plain_bind fun _ => plain_bind fun (_, _) => plain_bind fun _ =>
    .ite (h.bind fun _ => .pure _) (.pure _)

theorem printing (h : Counts d e e') : Counts d (printing e) (Parser.printing e') :=
  plain_bind fun _ => h.bind fun _ => .pure _

theorem conditional (h : Counts d e e') (hb : Counts d b b') :
    Counts d (conditional e b) (Parser.conditional e' b') :=
  plain_bind fun _ => h.bind fun _ => hb.bind fun _ => plain_bind fun _ =>
    .ite (hb.bind fun _ => .pure _) (.pure _)

theorem loop (h : Counts d e e') (hb : Counts d b b') : Counts d (loop e b) (Parser.loop e' b') :=
  plain_bind fun _ => h.bind fun _ => hb.bind fun _ => .pure _

theorem function (hb : Counts d b b') : Counts d (function b) (Parser.function b') :=
  plain_bind fun _ => plain_bind fun (_, _) => plain_bind fun _ => plain_bind fun _ =>
    plain_bind fun _ => hb.bind fun _ => .pure _

theorem exit (h : Counts d e e') : Counts d (exit e) (Parser.exit e') :=
  plain_bind fun _ => h.bind fun _ => .pure _

theorem bareStatement (h : Counts d e e') (hb : Counts d b b') :
    Counts d (bareStatement e b) (Parser.bareStatement e' b') := by
  have hexpression : Counts d (do return Stmt.expression (← e)) (do return Stmt.expression (← e')) :=
    h.bind fun _ => .pure _
  refine plain_bind fun kind => ?_
  cases kind with
  | none => exact hexpression
  | some kind =>
    cases kind with
    | keyword w =>
      cases w with
      | declare => exact declaration h
      | print => exact printing h
      | ifK => exact conditional h hb
      | whileK => exact loop h hb
      | function => exact function hb
      | returnK => exact exit h
      | _ => exact hexpression
    | mark m =>
      cases m with
      | leftBrace => exact hb.bind fun _ => .pure _
      | _ => exact hexpression
    | _ => exact hexpression

theorem statementOf (h : Counts d e e') (hb : Counts d b b') :
    Counts d (statementOf e b) (Parser.statementOf e' b') :=
  (bareStatement h hb).bind fun _ => plain_bind fun _ => .pure _

theorem statementsInBlock (h : Counts d s s') :
    ∀ n, Counts d (statementsInBlock s n) (Parser.statementsInBlock s' n)
  | 0 => plain _
  | n + 1 => plain_bind fun _ => .ite (.pure _) <| plain_bind fun _ => .ite (plain _) <|
    h.bind fun _ => (statementsInBlock h n).bind fun _ => .pure _

theorem braced (h : Counts d s s') : Counts d (braced s) (Parser.braced s') :=
  plain_bind fun _ => (turns (statementsInBlock h)).bind fun _ => plain_bind fun _ => .pure _

end Rules

/-! ### Nested constructs -/

/-- What the counter has not used up is **what the other form has left**. -/
theorem unary (hd : d + m = nestingLimit) (hm : m ≤ n) : Counts d (unary n) (Parser.unary m) := by
  induction n generalizing d m with
  | zero =>
    obtain rfl : m = 0 := Nat.le_zero.mp hm
    exact unaryLevel (nested_of_le (Nat.le_of_eq hd.symm)) (nested_of_le (Nat.le_of_eq hd.symm))
  | succ n ih =>
    cases m with
    | zero => exact unaryLevel (nested_of_le (Nat.le_of_eq hd.symm)) (nested_of_le (Nat.le_of_eq hd.symm))
    | succ m =>
      have hin : Counts (d + 1) (Counting.unary n) (Parser.unary m) :=
        ih (by omega) (Nat.le_of_succ_le_succ hm)
      exact unaryLevel (nested hin (by omega)) (nested (infixLevels hin) (by omega))

theorem expression (hd : d + m = nestingLimit) (hm : m ≤ n) :
    Counts d (expression n) (Parser.expression m) := by
  cases m with
  | zero => exact nested_of_le (Nat.le_of_eq hd.symm)
  | succ m => exact nested (infixLevels (unary (by omega) (by omega))) (by omega)

theorem block (hd : d + m = nestingLimit) (hm : m ≤ n) : Counts d (block n) (Parser.block m) := by
  induction n generalizing d m with
  | zero =>
    obtain rfl : m = 0 := Nat.le_zero.mp hm
    exact nested_of_le (Nat.le_of_eq hd.symm)
  | succ n ih =>
    cases m with
    | zero => exact nested_of_le (Nat.le_of_eq hd.symm)
    | succ m =>
      have hmn : m ≤ n := Nat.le_of_succ_le_succ hm
      have hd' : d + 1 + m = nestingLimit := by omega
      exact nested (braced (statementOf (expression hd' hmn) (ih hd' hmn))) (by omega)

theorem statement (hd : d + m = nestingLimit) (hm : m ≤ n) :
    Counts d (statement n) (Parser.statement m) :=
  statementOf (expression hd hm) (block hd hm)

end Counts

end Counting

end ScopeScript
