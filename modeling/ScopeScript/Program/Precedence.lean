import ScopeScript.Program
import ScopeScript.Token

/-!
# Operators and how tightly they bind

The infix operators stand on **six levels**, from disjunction, which binds most loosely, to the
operators of multiplication; on each level they group to the left. Conjunction and disjunction have
two spellings each, a word and a sign.

## Main definitions

* `ScopeScript.InfixOp`: an operator between two operands, and the node that it makes.
* `ScopeScript.InfixOp.level`: the level that an operator stands on.
* `ScopeScript.Token.Kind.infixOp?`, `ScopeScript.Token.Kind.unaryOp?`: the operators that a token
  spells.
-/

namespace ScopeScript

/-- An operator **between two operands**. -/
inductive InfixOp where
  /-- One that evaluates both. -/
  | binary (op : BinaryOp)
  /-- One that may evaluate the first only. -/
  | logical (op : LogicalOp)
deriving DecidableEq

namespace InfixOp

/-- The number of levels on which infix operators stand. -/
def levelCount : Nat := 6

/-- The **level** of an operator; level `0` binds most loosely. -/
def level : InfixOp → Nat
  | logical .disj => 0
  | logical .conj => 1
  | binary .equal | binary .notEqual => 2
  | binary .greater | binary .less | binary .greaterEqual | binary .lessEqual => 3
  | binary .add | binary .subtract => 4
  | binary .multiply | binary .divide | binary .remainder => 5

theorem level_lt (op : InfixOp) : op.level < levelCount := by
  cases op with
  | binary op => cases op <;> decide
  | logical op => cases op <;> decide

/-- The node for two operands; its span is the smallest that covers them. -/
def node (op : InfixOp) (left right : Expr) : Expr :=
  match op with
  | binary op => .binary op left right (left.span.merge right.span)
  | logical op => .logical op left right (left.span.merge right.span)

end InfixOp

/-- The **infix operator** that a token spells, if it does. -/
def Token.Kind.infixOp? : Token.Kind → Option InfixOp
  | .keyword .orK | .operator .doubleBar => some (.logical .disj)
  | .keyword .andK | .operator .doubleAmp => some (.logical .conj)
  | .operator .doubleEqual => some (.binary .equal)
  | .operator .unequal => some (.binary .notEqual)
  | .operator .greater => some (.binary .greater)
  | .operator .less => some (.binary .less)
  | .operator .greaterEqual => some (.binary .greaterEqual)
  | .operator .lessEqual => some (.binary .lessEqual)
  | .operator .plus => some (.binary .add)
  | .operator .minus => some (.binary .subtract)
  | .operator .times => some (.binary .multiply)
  | .operator .dividedBy => some (.binary .divide)
  | .operator .percent => some (.binary .remainder)
  | _ => none

/-- The **unary operator** that a token spells, if it does. -/
def Token.Kind.unaryOp? : Token.Kind → Option UnaryOp
  | .operator .minus => some .negate
  | .operator .bang => some .not
  | _ => none

end ScopeScript
