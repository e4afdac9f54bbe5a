import ScopeScript.Value

/-!
# Operators on values

Arithmetic takes numbers; the plus also joins two values as text if one of them is a string.
Comparisons take two numbers or two strings, and strings are ordered by the code points of their
characters. Equality takes any values, and so does negation of truth. An operator that does not fit
its operands fails with a `ScopeScript.TypeFault`.

## Main definitions

* `ScopeScript.TypeFault`: which operands do not fit which operator.
* `ScopeScript.BinaryOp.apply`, `ScopeScript.UnaryOp.apply`: the operators.
* `ScopeScript.LogicalOp.decides`: the first operand of a logical operator settles it.
-/

namespace ScopeScript

/-- **Operands that do not fit** an operator. -/
inductive TypeFault where
  /-- The operator of the given sign takes numbers only. -/
  | number (symbol : String) (found : ValueType)
  /-- Neither two numbers nor a string among the operands of the plus. -/
  | addition (left right : ValueType)
  /-- Neither two numbers nor two strings to compare by the given sign. -/
  | comparison (symbol : String) (left right : ValueType)
deriving DecidableEq

namespace TypeFault

/-- The words for what would have fitted. -/
def expected : TypeFault → String
  | number symbol _ => "a number for '" ++ symbol ++ "'"
  | addition _ _ => "numbers or strings for '+'"
  | comparison symbol _ _ => "two numbers or two strings for '" ++ symbol ++ "'"

/-- The words for what there was. -/
def found : TypeFault → String
  | number _ t => t.name
  | addition l r => l.name ++ " and " ++ r.name
  | comparison _ l r => l.name ++ " and " ++ r.name

end TypeFault

namespace BinaryOp

/-- An operation on **numbers only**; the first operand that is none is at fault. -/
def arithmetic (op : BinaryOp) (f : Float → Float → Float) :
    Value → Value → Except TypeFault Value
  | .number x, .number y => .ok (.number (f x y))
  | .number _, r => .error (.number op.symbol r.type)
  | l, _ => .error (.number op.symbol l.type)

/-- The **sum** of two numbers, or two values joined as text if one of them is a string. -/
def sum : Value → Value → Except TypeFault Value
  | .number x, .number y => .ok (.number (x + y))
  | .text s, r => .ok (.text (s ++ r.render))
  | l, .text t => .ok (.text (l.render ++ t))
  | l, r => .error (.addition l.type r.type)

/-- A **comparison** of two numbers or of two strings. -/
def comparison (op : BinaryOp) (numbers : Float → Float → Bool) (texts : String → String → Bool) :
    Value → Value → Except TypeFault Value
  | .number x, .number y => .ok (.boolean (numbers x y))
  | .text s, .text t => .ok (.boolean (texts s t))
  | l, r => .error (.comparison op.symbol l.type r.type)

/-- The value of a **binary operator** for two operands. -/
def apply : BinaryOp → Value → Value → Except TypeFault Value
  | add => sum
  | subtract => arithmetic subtract (· - ·)
  | multiply => arithmetic multiply (· * ·)
  | divide => arithmetic divide (· / ·)
  | remainder => arithmetic remainder Binary64.remainder
  | equal => fun l r => .ok (.boolean (l.equal r))
  | notEqual => fun l r => .ok (.boolean (!l.equal r))
  | greater => comparison greater (fun x y => y < x) (fun s t => t < s)
  | less => comparison less (fun x y => x < y) (fun s t => s < t)
  | greaterEqual => comparison greaterEqual (fun x y => y ≤ x) (fun s t => ¬ s < t)
  | lessEqual => comparison lessEqual (fun x y => x ≤ y) (fun s t => ¬ t < s)

end BinaryOp

/-- The value of a **unary operator** for its operand. -/
def UnaryOp.apply : UnaryOp → Value → Except TypeFault Value
  | negate, .number x => .ok (.number (-x))
  | negate, v => .error (.number negate.symbol v.type)
  | not, v => .ok (.boolean (!v.truthy))

/-- The value of the first operand **settles** a logical operator. -/
def LogicalOp.decides : LogicalOp → Value → Bool
  | conj, v => !v.truthy
  | disj, v => v.truthy

end ScopeScript
