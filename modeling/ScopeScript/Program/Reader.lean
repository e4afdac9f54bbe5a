import ScopeScript.Token.Scan

/-!
# Readers of token lists

A **reader** takes tokens off the front of a list and gives a result or an error. In both cases it
also gives the tokens that are left, so that reading can go on after an error exactly where it
stopped. This file holds the errors and the readers that the grammar is put together from.

## Main definitions

* `ScopeScript.ParseError`: why tokens spell no program, and `ScopeScript.Expected`: what would have
  fitted.
* `ScopeScript.Parser`: readers; they follow one another as the steps of a `do` block.
* `ScopeScript.Parser.turns`: how often a repetition may go round.
-/

namespace ScopeScript

/-! ### Errors -/

/-- **What would have fitted** where reading failed. -/
inductive Expected where
  /-- Any expression. -/
  | expression
  /-- A token that an expression begins with. -/
  | operand
  /-- The parenthesis that closes an expression. -/
  | closingParenthesis
  /-- The parenthesis that closes the arguments of a call. -/
  | closingArguments
  /-- The name of a variable to declare. -/
  | variableName
  /-- The name of a procedure to declare. -/
  | functionName
  /-- The parenthesis that opens the parameters. -/
  | openingParameters
  /-- The name of a parameter. -/
  | parameterName
  /-- The parenthesis that closes the parameters. -/
  | closingParameters
  /-- The brace that opens a block. -/
  | openingBlock
  /-- The brace that closes a block. -/
  | closingBlock
deriving DecidableEq

/-- The words for what would have fitted. -/
def Expected.text : Expected → String
  | expression => "an expression"
  | operand => "an expression (number, string, identifier or '(')"
  | closingParenthesis => "')' to close the parenthesis"
  | closingArguments => "')' to close the argument list"
  | variableName => "a variable name after 'declare'"
  | functionName => "a function name after 'function'"
  | openingParameters => "'(' to start the parameter list"
  | parameterName => "a parameter name"
  | closingParameters => "')' to close the parameter list"
  | openingBlock => "'\x7b' to start a block"
  | closingBlock => "'\x7d' to close the block"

/-- Why a list of tokens is **no program**. -/
inductive ParseError where
  /-- A token that does not fit. -/
  | misplaced (found : Token) (expected : Expected)
  /-- The input ends too early. -/
  | cutShort (expected : Expected)
  /-- Constructs are nested too deeply; the span is that of the token reached. -/
  | nestedTooDeep (span : Span)
deriving DecidableEq

/-- How deeply expressions, unary operators and blocks may **nest**. -/
def nestingLimit : Nat := 256

/-- The wording of the error. -/
def ParseError.message : ParseError → String
  | misplaced found expected =>
    "Parse Error [at " ++ found.span.text ++ "]: Unexpected " ++ found.kind.describe ++
      ", expected " ++ expected.text
  | cutShort expected => "Parse Error: Unexpected end of input. Expected " ++ expected.text
  | nestedTooDeep span =>
    "Parse Error [at " ++ span.text ++ "]: Nesting deeper than " ++ toString nestingLimit ++
      " levels"

/-! ### Readers -/

/-- A **reader**: takes tokens off a list, and gives what they spell or why they do not, with the
tokens that are left. -/
def Parser (α : Type) : Type :=
  List Token → Except ParseError α × List Token

namespace Parser

/-- The reader that takes nothing. -/
@[inline] protected def pure {α : Type} (a : α) : Parser α :=
  fun ts => (.ok a, ts)

/-- One reader **after the other**; an error ends the reading. -/
@[inline] protected def bind {α β : Type} (p : Parser α) (f : α → Parser β) : Parser β :=
  fun ts =>
    match p ts with
    | (.ok a, rest) => f a rest
    | (.error e, rest) => (.error e, rest)

instance : Monad Parser where
  pure := Parser.pure
  bind := Parser.bind

@[simp] theorem pure_apply {α : Type} (a : α) (ts : List Token) :
    (pure a : Parser α) ts = (.ok a, ts) :=
  rfl

theorem bind_apply_of_ok {α β : Type} {p : Parser α} {ts rest : List Token} {a : α}
    (h : p ts = (.ok a, rest)) (f : α → Parser β) : (p >>= f) ts = f a rest := by
  change Parser.bind p f ts = _
  rw [Parser.bind, h]

theorem bind_apply_of_error {α β : Type} {p : Parser α} {ts rest : List Token} {e : ParseError}
    (h : p ts = (.error e, rest)) (f : α → Parser β) : (p >>= f) ts = (.error e, rest) := by
  change Parser.bind p f ts = _
  rw [Parser.bind, h]

/-- The reader that fails and takes nothing. -/
def fail {α : Type} (e : ParseError) : Parser α :=
  fun ts => (.error e, ts)

/-- The kind of the next token, which is **not taken**. -/
def peek : Parser (Option Token.Kind) :=
  fun ts => (.ok (ts.head?.map Token.kind), ts)

/-- A token does not fit; at the end of the input the error is that the input ends. -/
def mismatch (found : Token) (expected : Expected) : ParseError :=
  if found.kind = .endOfInput then .cutShort expected else .misplaced found expected

/-- Takes **any token**. -/
def token (expected : Expected) : Parser Token
  | [] => (.error (.cutShort expected), [])
  | t :: ts => (.ok t, ts)

/-- Takes a token **of the given kind**; another token is taken too, but is an error. -/
def expect (kind : Token.Kind) (expected : Expected) : Parser Span := do
  let t ← token expected
  if t.kind = kind then pure t.span else fail (mismatch t expected)

/-- Takes an **identifier**; another token is taken too, but is an error. -/
def identifier (expected : Expected) : Parser (String × Span) := do
  let t ← token expected
  match t.kind with
  | .identifier name => pure (name, t.span)
  | _ => fail (mismatch t expected)

/-- Takes the next token **if it is of the given kind**, and tells whether it was. -/
def accept (kind : Token.Kind) : Parser Bool
  | [] => (.ok false, [])
  | t :: ts => if t.kind = kind then (.ok true, ts) else (.ok false, t :: ts)

/-- The next token is the end of the input, or there is none. -/
def atEnd : Parser Bool
  | [] => (.ok true, [])
  | t :: ts => (.ok (t.kind = .endOfInput), t :: ts)

/-- No level of nesting is left. -/
def tooDeep {α : Type} : Parser α :=
  fun ts => (.error (.nestedTooDeep ((ts.head?.map Token.span).getD .none)), ts)

/-- Gives a repetition **as many turns as there are tokens**. -/
def turns {α : Type} (repetition : Nat → Parser α) : Parser α :=
  fun ts => repetition ts.length ts

/-- Items **separated by commas**, at least one. -/
def commaSeparated {α : Type} (item : Parser α) : Nat → Parser (List α)
  | 0 => do return [← item]
  | n + 1 => do
    let x ← item
    if ← accept (.mark .comma) then
      return x :: (← commaSeparated item n)
    else
      return [x]

/-- Items separated by commas up to a closing parenthesis, **perhaps none**. -/
def commaList {α : Type} (item : Parser α) : Parser (List α) := do
  if (← peek) = some (.mark .rightParen) then
    return []
  else
    turns (commaSeparated item)

end Parser

end ScopeScript
