import ScopeScript.Text.Line
import ScopeScript.Token.Scan

/-!
# Colouring a line

While a line is being typed its keywords, strings, numbers and truth values are **shown in colour**,
by the control sequences of terminals. Nothing else changes: a line without its control sequences is
the line as it was typed. A line that is no list of tokens yet is shown without colour.

## Main definitions

* `ScopeScript.Highlight.colour?`: the colour of a token.
* `ScopeScript.Highlight.paint`: a line in colour.
-/

namespace ScopeScript.Highlight

/-- The control sequence that **begins a colour**: keywords are bold magenta, strings green, numbers
and truth values yellow. -/
def colour? : Token.Kind → Option String
  | .keyword _ => some "\x1b[1;35m"
  | .text _ => some "\x1b[32m"
  | .number _ => some "\x1b[33m"
  | .identifier name => if name = "true" ∨ name = "false" then some "\x1b[33m" else none
  | _ => none

/-- The control sequence that **ends a colour**. -/
def reset : String := "\x1b[0m"

/-- The text of a token in its colour. -/
def coloured (kind : Token.Kind) (text : List Char) : List Char :=
  match colour? kind with
  | some begin => begin.toList ++ text ++ reset.toList
  | none => text

/-- Colours the tokens in a text **that begins at byte `pos`**; what lies between and behind them
stays as it is. -/
def paintFrom (pos : Nat) (text : List Char) : List Token → List Char
  | [] => text
  | t :: ts =>
    let (gap, rest) := Text.cutBytes (t.span.start - pos) text
    let (spelled, rest) := Text.cutBytes (t.span.stop - t.span.start) rest
    gap ++ coloured t.kind spelled ++ paintFrom t.span.stop rest ts

/-- A **line in colour**, if it is a list of tokens. -/
def paint (line : String) : String :=
  match tokenize line with
  | .ok tokens => String.ofList (paintFrom 0 line.toList tokens)
  | .error _ => line

end ScopeScript.Highlight
