import ScopeScript.Program
import ScopeScript.Text.Quoted
import ScopeScript.Number.Decimal

/-!
# Programs as parenthesised lists

A program can be listed in a form that shows its structure: every node with parts is a list in
parentheses whose head names the node, and the parts follow in order, each behind one space.
`declare r = 2 + 3 * 4` is listed as `(declare r (+ 2 (* 3 4)))`.

## Main definitions

* `ScopeScript.Expr.listing`, `ScopeScript.Stmt.listing`, `ScopeScript.Block.listing`
* `ScopeScript.Program.listing`: the statements of a program, one to a line.
-/

namespace ScopeScript

/-- A literal in a listing: numbers by their digits, strings quoted. -/
def Literal.listing : Literal → String
  | number x => NumberStyle.listed.write x
  | text s => Text.quoted s
  | boolean true => "true"
  | boolean false => "false"

mutual

/-- An **expression** in a listing. -/
def Expr.listing : Expr → String
  | .literal v _ => v.listing
  | .name id _ => id
  | .binary op l r _ => "(" ++ op.symbol ++ " " ++ l.listing ++ " " ++ r.listing ++ ")"
  | .logical op l r _ => "(" ++ op.symbol ++ " " ++ l.listing ++ " " ++ r.listing ++ ")"
  | .unary op e _ => "(" ++ op.symbol ++ " " ++ e.listing ++ ")"
  | .call f args _ => "(call " ++ f.listing ++ Expr.listingAll args ++ ")"

/-- Several expressions in a listing, each behind a space. -/
def Expr.listingAll : List Expr → String
  | [] => ""
  | e :: es => " " ++ e.listing ++ Expr.listingAll es

end

mutual

/-- A **statement** in a listing. -/
def Stmt.listing : Stmt → String
  | .declare name none _ => "(declare " ++ name ++ ")"
  | .declare name (some e) _ => "(declare " ++ name ++ " " ++ e.listing ++ ")"
  | .print e _ => "(print " ++ e.listing ++ ")"
  | .block b => b.listing
  | .conditional test b none _ => "(if " ++ test.listing ++ " " ++ b.listing ++ ")"
  | .conditional test b (some c) _ =>
    "(if " ++ test.listing ++ " " ++ b.listing ++ " " ++ c.listing ++ ")"
  | .loop test b _ => "(while " ++ test.listing ++ " " ++ b.listing ++ ")"
  | .function name params b _ =>
    "(function " ++ name ++ " (" ++ " ".intercalate params ++ ") " ++ b.listing ++ ")"
  | .exit e _ => "(return " ++ e.listing ++ ")"
  | .expression e => e.listing

/-- A **block** in a listing. -/
def Block.listing : Block → String
  | .mk ss _ => "(block" ++ Stmt.listingAll ss ++ ")"

/-- Several statements in a listing, each behind a space. -/
def Stmt.listingAll : List Stmt → String
  | [] => ""
  | s :: ss => " " ++ s.listing ++ Stmt.listingAll ss

end

/-- A **program** in a listing: its statements, one to a line. -/
def Program.listing (p : Program) : String :=
  "\n".intercalate (p.statements.map Stmt.listing)

end ScopeScript
