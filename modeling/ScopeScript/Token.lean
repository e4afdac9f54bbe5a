import ScopeScript.Text.Span
import ScopeScript.Text.Quoted
import ScopeScript.Number.Decimal

/-!
# Tokens

A program is read as a list of tokens. Keywords, operators and marks each have **one spelling**, so
they are plain enumerations with a table of spellings; names, numbers and strings carry what they
denote. A list of tokens closes with one token that stands for the end of the input.

## Main definitions

* `ScopeScript.Keyword`, `ScopeScript.Operator`, `ScopeScript.Mark`: the tokens of fixed spelling.
* `ScopeScript.Token.Kind`: what a token is, and `ScopeScript.Token`: where it stands.
* `ScopeScript.Token.Kind.describe`: how messages name a token.
-/

namespace ScopeScript

/-! ### Tokens of fixed spelling -/

/-- The **reserved words**. -/
inductive Keyword where
  /-- Declares a variable. -/
  | declare
  /-- Prints a value; in an expression, the name of the builtin procedure. -/
  | print
  /-- Begins a conditional. -/
  | ifK
  /-- Begins the other branch of a conditional. -/
  | elseK
  /-- Begins a loop. -/
  | whileK
  /-- Declares a procedure. -/
  | function
  /-- Leaves a procedure with a value. -/
  | returnK
  /-- Conjunction, in letters. -/
  | andK
  /-- Disjunction, in letters. -/
  | orK
deriving DecidableEq

namespace Keyword

/-- All reserved words. -/
def all : List Keyword :=
  [declare, print, ifK, elseK, whileK, function, returnK, andK, orK]

/-- The spelling of a reserved word. -/
def spelling : Keyword → String
  | declare => "declare"
  | print => "print"
  | ifK => "if"
  | elseK => "else"
  | whileK => "while"
  | function => "function"
  | returnK => "return"
  | andK => "and"
  | orK => "or"

/-- The reserved word of the given spelling, if there is one. -/
def ofSpelling? (word : String) : Option Keyword :=
  all.find? fun k => k.spelling = word

theorem mem_all (k : Keyword) : k ∈ all := by
  cases k <;> decide

theorem ofSpelling?_spelling (k : Keyword) : ofSpelling? k.spelling = some k := by
  cases k <;> decide

theorem spelling_of_ofSpelling? {word : String} {k : Keyword} (h : ofSpelling? word = some k) :
    k.spelling = word := by
  simpa using List.find?_some h

end Keyword

/-- The **operators**, all of them infix but the last; the minus is both. -/
inductive Operator where
  /-- Addition, and joining of strings. -/
  | plus
  /-- Subtraction, and change of sign. -/
  | minus
  /-- Multiplication. -/
  | times
  /-- Division. -/
  | dividedBy
  /-- Remainder. -/
  | percent
  /-- Equality. -/
  | doubleEqual
  /-- Inequality. -/
  | unequal
  /-- Greater than. -/
  | greater
  /-- Less than. -/
  | less
  /-- Greater than or equal. -/
  | greaterEqual
  /-- Less than or equal. -/
  | lessEqual
  /-- Conjunction, in signs. -/
  | doubleAmp
  /-- Disjunction, in signs. -/
  | doubleBar
  /-- Negation. -/
  | bang
deriving DecidableEq

/-- The spelling of an operator. -/
def Operator.spelling : Operator → String
  | plus => "+"
  | minus => "-"
  | times => "*"
  | dividedBy => "/"
  | percent => "%"
  | doubleEqual => "=="
  | unequal => "!="
  | greater => ">"
  | less => "<"
  | greaterEqual => ">="
  | lessEqual => "<="
  | doubleAmp => "&&"
  | doubleBar => "||"
  | bang => "!"

/-- The **marks** that give a program its shape. -/
inductive Mark where
  /-- The sign between a declared name and its first value. -/
  | assign
  /-- An opening parenthesis. -/
  | leftParen
  /-- A closing parenthesis. -/
  | rightParen
  /-- An opening brace. -/
  | leftBrace
  /-- A closing brace. -/
  | rightBrace
  /-- A comma between parameters or arguments. -/
  | comma
  /-- A semicolon after a statement. -/
  | semicolon
deriving DecidableEq

/-- The spelling of a mark. -/
def Mark.spelling : Mark → String
  | assign => "="
  | leftParen => "("
  | rightParen => ")"
  | leftBrace => "\x7b"
  | rightBrace => "\x7d"
  | comma => ","
  | semicolon => ";"

/-! ### Tokens -/

/-- **What a token is**, apart from where it stands. -/
inductive Token.Kind where
  /-- A reserved word. -/
  | keyword (k : Keyword)
  /-- A name that is not reserved. -/
  | identifier (name : String)
  /-- A number literal and its value. -/
  | number (value : Float)
  /-- A string literal and the text that it denotes. -/
  | text (value : String)
  /-- An operator. -/
  | operator (op : Operator)
  /-- A mark. -/
  | mark (m : Mark)
  /-- The end of the input. -/
  | endOfInput
deriving DecidableEq

/-- A **token**: what it is, and the stretch of text that it takes. -/
structure Token where
  /-- What the token is. -/
  kind : Token.Kind
  /-- Where it stands. -/
  span : Span
deriving DecidableEq

/-- How **messages name** a token: tokens of fixed spelling by that spelling, the others by their
sort and what they denote. -/
def Token.Kind.describe : Token.Kind → String
  | keyword k => "'" ++ k.spelling ++ "'"
  | identifier name => "identifier '" ++ name ++ "'"
  | number value => "number " ++ NumberStyle.listed.write value
  | text value => "string " ++ Text.quoted value
  | operator op => "'" ++ op.spelling ++ "'"
  | mark m => "'" ++ m.spelling ++ "'"
  | endOfInput => "end of input"

end ScopeScript
