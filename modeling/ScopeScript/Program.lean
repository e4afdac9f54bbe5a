import ScopeScript.Text.Span

/-!
# Programs

A program is a list of statements, and statements hold expressions and blocks. Every node carries
the span of its text; parentheses leave no node, but the span of what they enclose takes them in.

## Main definitions

* `ScopeScript.Expr`: expressions.
* `ScopeScript.Stmt` and `ScopeScript.Block`: statements, and the lists of them between braces.
* `ScopeScript.FunctionDecl`: a procedure as it is declared.
* `ScopeScript.Program`: a whole text.
-/

namespace ScopeScript

/-! ### Expressions -/

/-- The values that a program can **spell out**. -/
inductive Literal where
  /-- A number. -/
  | number (value : Float)
  /-- A string. -/
  | text (value : String)
  /-- A truth value. -/
  | boolean (value : Bool)
deriving DecidableEq

/-- The operators that **evaluate both operands**. -/
inductive BinaryOp where
  /-- Sum of numbers, or joined strings. -/
  | add
  /-- Difference. -/
  | subtract
  /-- Product. -/
  | multiply
  /-- Quotient. -/
  | divide
  /-- Remainder. -/
  | remainder
  /-- Equal values. -/
  | equal
  /-- Different values. -/
  | notEqual
  /-- Greater than. -/
  | greater
  /-- Less than. -/
  | less
  /-- Greater than or equal. -/
  | greaterEqual
  /-- Less than or equal. -/
  | lessEqual
deriving DecidableEq

/-- The operators that evaluate their second operand **only if the first does not decide**. -/
inductive LogicalOp where
  /-- Conjunction: a falsy first operand decides. -/
  | conj
  /-- Disjunction: a truthy first operand decides. -/
  | disj
deriving DecidableEq

/-- The operators in front of a **single operand**. -/
inductive UnaryOp where
  /-- Change of sign. -/
  | negate
  /-- Negation of truth. -/
  | not
deriving DecidableEq

/-- The sign of a binary operator. -/
def BinaryOp.symbol : BinaryOp → String
  | add => "+"
  | subtract => "-"
  | multiply => "*"
  | divide => "/"
  | remainder => "%"
  | equal => "=="
  | notEqual => "!="
  | greater => ">"
  | less => "<"
  | greaterEqual => ">="
  | lessEqual => "<="

/-- The word of a logical operator. -/
def LogicalOp.symbol : LogicalOp → String
  | conj => "and"
  | disj => "or"

/-- The sign of a unary operator. -/
def UnaryOp.symbol : UnaryOp → String
  | negate => "-"
  | not => "!"

/-- An **expression** and where it stands. -/
inductive Expr where
  /-- A value spelled out. -/
  | literal (value : Literal) (span : Span)
  /-- The value that a name is bound to. -/
  | name (id : String) (span : Span)
  /-- An operator applied to the values of two operands. -/
  | binary (op : BinaryOp) (left right : Expr) (span : Span)
  /-- A conjunction or a disjunction. -/
  | logical (op : LogicalOp) (left right : Expr) (span : Span)
  /-- An operator applied to the value of one operand. -/
  | unary (op : UnaryOp) (operand : Expr) (span : Span)
  /-- A procedure applied to arguments. -/
  | call (callee : Expr) (arguments : List Expr) (span : Span)

namespace Expr

/-- Where an expression stands. -/
def span : Expr → Span
  | literal _ s => s
  | name _ s => s
  | binary _ _ _ s => s
  | logical _ _ _ s => s
  | unary _ _ s => s
  | call _ _ s => s

/-- The same expression **said to stand elsewhere**; its parts stay where they are. -/
def withSpan (s : Span) : Expr → Expr
  | literal v _ => literal v s
  | name id _ => name id s
  | binary op l r _ => binary op l r s
  | logical op l r _ => logical op l r s
  | unary op e _ => unary op e s
  | call f args _ => call f args s

@[simp] theorem span_withSpan (s : Span) (e : Expr) : (e.withSpan s).span = s := by
  cases e <;> rfl

end Expr

/-! ### Statements -/

mutual

/-- A **statement** and where it stands. -/
inductive Stmt where
  /-- Binds a name in the current scope, to nothing yet or to a first value. -/
  | declare (name : String) (initializer : Option Expr) (span : Span)
  /-- Prints a value. -/
  | print (value : Expr) (span : Span)
  /-- A block by itself. -/
  | block (body : Block)
  /-- One block or the other, as a test comes out. -/
  | conditional (test : Expr) (consequent : Block) (alternate : Option Block) (span : Span)
  /-- A block repeated while a test holds. -/
  | loop (test : Expr) (body : Block) (span : Span)
  /-- Binds a procedure to its name in the current scope. -/
  | function (name : String) (params : List String) (body : Block) (span : Span)
  /-- Leaves the innermost call, or the program, with a value. -/
  | exit (value : Expr) (span : Span)
  /-- An expression evaluated for its value. -/
  | expression (value : Expr)

/-- The statements **between two braces**. -/
inductive Block where
  /-- A block with the given statements, from brace to brace. -/
  | mk (statements : List Stmt) (span : Span)

end

namespace Block

/-- The statements of a block. -/
def statements : Block → List Stmt
  | mk ss _ => ss

/-- Where a block stands, braces included. -/
def span : Block → Span
  | mk _ s => s

end Block

/-- Where a statement stands; a semicolon behind it is not part of it. -/
def Stmt.span : Stmt → Span
  | declare _ _ s => s
  | print _ s => s
  | block b => b.span
  | conditional _ _ _ s => s
  | loop _ _ s => s
  | function _ _ _ s => s
  | exit _ s => s
  | expression e => e.span

/-- A **procedure as it is declared**: its name, its parameters and its body. -/
structure FunctionDecl where
  /-- The name that it is bound to. -/
  name : String
  /-- The names that a call binds the arguments to. -/
  params : List String
  /-- What a call runs. -/
  body : Block

/-- A **whole program**: the statements of a text. -/
structure Program where
  /-- The statements in their order. -/
  statements : List Stmt

end ScopeScript
