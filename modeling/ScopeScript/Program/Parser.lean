import ScopeScript.Program.Precedence
import ScopeScript.Program.Reader

/-!
# Reading programs

The grammar, read with **one token of foresight**: the next token settles which construct begins,
and an expression goes on as long as it can. The semicolon behind a statement may be left out.

Constructs nest, and how deeply is limited: every expression, every operand of a unary operator and
every block takes one of `ScopeScript.nestingLimit` levels. The number of levels left is the
argument on which the readers of nested constructs recur, so each of them is built from the reader
one level further in.

## Main definitions

* `ScopeScript.Parser.unary`, `ScopeScript.Parser.expression`, `ScopeScript.Parser.block`,
  `ScopeScript.Parser.statement`: the nested constructs, by the levels left.
* `ScopeScript.Parser.program`: statements up to the end of the input.
* `ScopeScript.parse`: the program that a list of tokens spells.
-/

namespace ScopeScript

namespace Parser

/-! ### Expressions -/

/-- Takes an infix operator **of the given level**, if one is next. -/
def infixAt (level : Nat) : Parser (Option InfixOp)
  | [] => (.ok none, [])
  | t :: ts =>
    match t.kind.infixOp? with
    | some op => if op.level = level then (.ok (some op), ts) else (.ok none, t :: ts)
    | none => (.ok none, t :: ts)

/-- Takes a unary operator, if one is next. -/
def unaryOperator : Parser (Option (UnaryOp × Span))
  | [] => (.ok none, [])
  | t :: ts =>
    match t.kind.unaryOp? with
    | some op => (.ok (some (op, t.span)), ts)
    | none => (.ok none, t :: ts)

/-- Goes on from a left operand **while operators of the level follow**, grouping to the left. -/
def chain (operand : Parser Expr) (level : Nat) : Nat → Expr → Parser Expr
  | 0, left => return left
  | n + 1, left => do
    match ← infixAt level with
    | none => return left
    | some op =>
      let right ← operand
      chain operand level n (op.node left right)

/-- Operands joined by the operators of **one level**. -/
def infixLevel (level : Nat) (operand : Parser Expr) : Parser Expr := do
  let left ← operand
  turns fun n => chain operand level n left

/-- Operands joined by **infix operators** of all levels. -/
def infixLevels (operand : Parser Expr) : Parser Expr :=
  (List.range InfixOp.levelCount).foldr infixLevel operand

/-- The innermost expressions: **literals, names, and expressions in parentheses**. In an expression
the word `print` is the name of the builtin procedure. -/
def primary (expression : Parser Expr) : Parser Expr := do
  let t ← token .expression
  match t.kind with
  | .number x => return .literal (.number x) t.span
  | .text s => return .literal (.text s) t.span
  | .identifier "true" => return .literal (.boolean true) t.span
  | .identifier "false" => return .literal (.boolean false) t.span
  | .identifier id => return .name id t.span
  | .keyword .print => return .name Keyword.print.spelling t.span
  | .mark .leftParen =>
    let inner ← expression
    let close ← expect (.mark .rightParen) .closingParenthesis
    return inner.withSpan (t.span.merge close)
  | _ => fail (mismatch t .operand)

/-- Goes on from a callee **while argument lists follow**. -/
def calls (expression : Parser Expr) : Nat → Expr → Parser Expr
  | 0, callee => return callee
  | n + 1, callee => do
    if ← accept (.mark .leftParen) then
      let arguments ← commaList expression
      let close ← expect (.mark .rightParen) .closingArguments
      calls expression n (.call callee arguments (callee.span.merge close))
    else
      return callee

/-- A **unary operator before an operand**, or a primary expression with its calls. -/
def unaryLevel (operand expression : Parser Expr) : Parser Expr := do
  match ← unaryOperator with
  | some (op, span) =>
    let e ← operand
    return .unary op e (span.merge e.span)
  | none =>
    let callee ← primary expression
    turns fun n => calls expression n callee

/-- The **unary level** of expressions, with so many levels of nesting left. -/
def unary : Nat → Parser Expr
  | 0, ts => unaryLevel tooDeep tooDeep ts
  | n + 1, ts => unaryLevel (unary n) (infixLevels (unary n)) ts

/-- An **expression**, with so many levels of nesting left. -/
def expression : Nat → Parser Expr
  | 0 => tooDeep
  | n + 1 => infixLevels (unary n)

/-! ### Statements -/

/-- A declaration of a **variable**. -/
def declaration (expression : Parser Expr) : Parser Stmt := do
  let word ← token .expression
  let (name, nameSpan) ← identifier .variableName
  if ← accept (.mark .assign) then
    let e ← expression
    return .declare name (some e) (word.span.merge e.span)
  else
    return .declare name none (word.span.merge nameSpan)

/-- A **print** statement. -/
def printing (expression : Parser Expr) : Parser Stmt := do
  let word ← token .expression
  let e ← expression
  return .print e (word.span.merge e.span)

/-- A **conditional**, with or without another branch. -/
def conditional (expression : Parser Expr) (block : Parser Block) : Parser Stmt := do
  let word ← token .expression
  let test ← expression
  let consequent ← block
  if ← accept (.keyword .elseK) then
    let alternate ← block
    return .conditional test consequent (some alternate) (word.span.merge alternate.span)
  else
    return .conditional test consequent none (word.span.merge consequent.span)

/-- A **loop**. -/
def loop (expression : Parser Expr) (block : Parser Block) : Parser Stmt := do
  let word ← token .expression
  let test ← expression
  let body ← block
  return .loop test body (word.span.merge body.span)

/-- A declaration of a **procedure**. -/
def function (block : Parser Block) : Parser Stmt := do
  let word ← token .expression
  let (name, _) ← identifier .functionName
  let _ ← expect (.mark .leftParen) .openingParameters
  let params ← commaList (identifier .parameterName)
  let _ ← expect (.mark .rightParen) .closingParameters
  let body ← block
  return .function name (params.map Prod.fst) body (word.span.merge body.span)

/-- A **return** statement. -/
def exit (expression : Parser Expr) : Parser Stmt := do
  let word ← token .expression
  let e ← expression
  return .exit e (word.span.merge e.span)

/-- A statement without the semicolon that may follow; its **first token** tells which it is. -/
def bareStatement (expression : Parser Expr) (block : Parser Block) : Parser Stmt := do
  match ← peek with
  | some (.keyword .declare) => declaration expression
  | some (.keyword .print) => printing expression
  | some (.keyword .ifK) => conditional expression block
  | some (.keyword .whileK) => loop expression block
  | some (.keyword .function) => function block
  | some (.keyword .returnK) => exit expression
  | some (.mark .leftBrace) => return .block (← block)
  | _ => return .expression (← expression)

/-- A statement, and a **semicolon** if one follows. -/
def statementOf (expression : Parser Expr) (block : Parser Block) : Parser Stmt := do
  let s ← bareStatement expression block
  let _ ← accept (.mark .semicolon)
  return s

/-- Statements **up to a closing brace**, which is not taken. -/
def statementsInBlock (statement : Parser Stmt) : Nat → Parser (List Stmt)
  | 0 => fail (.cutShort .closingBlock)
  | n + 1 => do
    if (← peek) = some (.mark .rightBrace) then
      return []
    else if ← atEnd then
      fail (.cutShort .closingBlock)
    else
      let s ← statement
      return s :: (← statementsInBlock statement n)

/-- Statements **between braces**. -/
def braced (statement : Parser Stmt) : Parser Block := do
  let opening ← expect (.mark .leftBrace) .openingBlock
  let statements ← turns (statementsInBlock statement)
  let closing ← expect (.mark .rightBrace) .closingBlock
  return .mk statements (opening.merge closing)

/-- A **block**, with so many levels of nesting left. -/
def block : Nat → Parser Block
  | 0, ts => tooDeep ts
  | n + 1, ts => braced (statementOf (expression n) (block n)) ts

/-- A **statement**, with so many levels of nesting left. -/
def statement (n : Nat) : Parser Stmt :=
  statementOf (expression n) (block n)

/-! ### Programs -/

/-- Statements **up to the end of the input**. -/
def statementsToEnd (statement : Parser Stmt) : Nat → Parser (List Stmt)
  | 0 => return []
  | n + 1 => do
    if ← atEnd then
      return []
    else
      let s ← statement
      return s :: (← statementsToEnd statement n)

/-- A whole **program**. -/
def program : Parser Program := do
  return ⟨← turns (statementsToEnd (statement nestingLimit))⟩

end Parser

/-- The **program that a list of tokens spells**, or the first error in it. -/
def parse (tokens : List Token) : Except ParseError Program :=
  (Parser.program tokens).1

end ScopeScript
