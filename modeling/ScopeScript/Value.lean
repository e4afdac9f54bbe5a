import ScopeScript.Program
import ScopeScript.Number.Decimal

/-!
# Values

A running program computes with numbers, strings, truth values, a single null, and procedures. A
procedure is either the builtin one that prints, or a **closure**: a declaration together with the
scope in which it was declared. A scope is the frame in which names are bound now and the frames
around it, innermost first; what the frames hold is not part of the value.

A closure is told from others by its declaration and its frame. The declaration is known by the text
that it stands in and by where in it its body stands, so reading a text twice gives two
declarations, while running a declaration twice in one frame gives the same closure.

## Main definitions

* `ScopeScript.Scope`, `ScopeScript.Closure`, `ScopeScript.Value`
* `ScopeScript.Value.truthy`: how a value decides a test.
* `ScopeScript.Value.equal`: the equality of the language.
* `ScopeScript.Value.render`: how a value is printed.
-/

namespace ScopeScript

/-- The number of a frame; frames are numbered in the order in which they are made. -/
abbrev FrameId : Type := Nat

/-- A **scope**: the frame in which names are bound, and the frames around it, innermost first. -/
structure Scope where
  /-- The innermost frame. -/
  frame : FrameId
  /-- The frames around it. -/
  outer : List FrameId
deriving DecidableEq

/-- All frames of a scope, innermost first. -/
def Scope.chain (s : Scope) : List FrameId :=
  s.frame :: s.outer

/-- A **procedure declared by the program**, with the scope that it was declared in. -/
structure Closure where
  /-- The text in which the declaration stands; texts are numbered as they are read. -/
  text : Nat
  /-- The declaration. -/
  decl : FunctionDecl
  /-- The scope in which it was declared. -/
  scope : Scope

/-- A **value** of a running program. -/
inductive Value where
  /-- A number. -/
  | number (x : Float)
  /-- A string. -/
  | text (s : String)
  /-- A truth value. -/
  | boolean (b : Bool)
  /-- The value of what has none. -/
  | null
  /-- The builtin procedure, which prints its arguments. -/
  | builtin
  /-- A procedure declared by the program. -/
  | closure (c : Closure)

/-- The **types** of values, as messages name them. -/
inductive ValueType where
  /-- Numbers. -/
  | number
  /-- Strings. -/
  | text
  /-- Truth values. -/
  | boolean
  /-- Null. -/
  | null
  /-- Procedures of either kind. -/
  | procedure
deriving DecidableEq

/-- The name of a type. -/
def ValueType.name : ValueType → String
  | number => "number"
  | text => "string"
  | boolean => "boolean"
  | null => "null"
  | procedure => "function"

/-- The value that a literal spells out. -/
def Literal.value : Literal → Value
  | number x => .number x
  | text s => .text s
  | boolean b => .boolean b

/-- Two closures are the **same closure**: the same declaration in the same frame. A declaration is
known by the number of its text, by its name and by the span of its body. For programs that have
been read from texts, each run once, this is exact (`ScopeScript.Closure.Mirrors.same_iff`). Beyond
these it is not: a tree that is built by hand may repeat a name and a span, and its two procedures
are then taken for one; and as each run counts as a text, running a program again makes other
declarations of its procedures, though the tree is the same. -/
def Closure.same (c d : Closure) : Bool :=
  c.text = d.text && c.decl.name = d.decl.name && c.decl.body.span = d.decl.body.span &&
    c.scope.frame = d.scope.frame

namespace Value

/-- The type of a value. -/
def type : Value → ValueType
  | number _ => .number
  | text _ => .text
  | boolean _ => .boolean
  | null => .null
  | builtin => .procedure
  | closure _ => .procedure

/-- How a value **decides a test**: null, falsehood, zero, what is not a number and the empty string
decide against. -/
def truthy : Value → Bool
  | number x => !(x == 0) && !x.isNaN
  | text s => s ≠ ""
  | boolean b => b
  | null => false
  | builtin => true
  | closure _ => true

/-- The **equality of the language**. Values of different types are never equal; numbers are equal
as numbers, so the zeros are equal and what is not a number equals nothing. -/
def equal : Value → Value → Bool
  | number x, number y => x == y
  | text s, text t => s = t
  | boolean a, boolean b => a = b
  | null, null => true
  | builtin, builtin => true
  | closure c, closure d => c.same d
  | _, _ => false

/-- How a value is **printed**: strings as they are, procedures by their name. -/
def render : Value → String
  | number x => NumberStyle.printed.write x
  | text s => s
  | boolean true => "true"
  | boolean false => "false"
  | null => "null"
  | builtin => "<builtin print>"
  | closure c => "<function " ++ c.decl.name ++ ">"

end Value

end ScopeScript
