import ScopeScript.Interpreter
import ScopeScript.Text.Line
import ScopeScript.Text.WhiteSpace

/-!
# Reports of failures

A failure is reported as a message, the place in the source, and **the lines concerned with a label
on them**. A label on part of one line is drawn below it: a rule under the stretch, and from its
middle a corner leading to the label. A label that begins in one line and ends in another is drawn
to the left of these two lines, and lines between them are left out. If the place does not lie in
the source, only the message is shown.

## Main definitions

* `ScopeScript.Report`: a message, a label and what it is on.
* `ScopeScript.Failure.report`: what is reported about a failure.
* `ScopeScript.Report.draw`: the report as text.
-/

namespace ScopeScript

/-- What is **reported about a failure**. -/
structure Report where
  /-- The message at the head. -/
  message : String
  /-- The label at the place. -/
  label : String
  /-- The place; without one it is the end of the source. -/
  span? : Option Span

/-! ### What is reported -/

/-- The report of an error in the tokens. -/
def LexError.report (e : LexError) : Report :=
  ⟨"Lexer Error", e.message, some e.span⟩

/-- The report of an error in the grammar. -/
def ParseError.report : ParseError → Report
  | misplaced found expected =>
    ⟨"Unexpected token: " ++ found.kind.describe, "Expected " ++ expected.text, some found.span⟩
  | cutShort expected => ⟨"Unexpected end of input", "Expected " ++ expected.text, none⟩
  | nestedTooDeep span =>
    ⟨"Nesting deeper than " ++ toString nestingLimit ++ " levels", "Nesting limit reached here",
      some span⟩

/-- The label for an error of a run. -/
def RuntimeError.label : RuntimeError → String
  | unknownName _ _ => "This name is not defined in the current scope"
  | wrongOperands fault _ => "Expected " ++ fault.expected ++ ", found " ++ fault.found
  | notCallable _ _ => "This expression cannot be called as a function"
  | wrongArgumentCount _ expected found _ =>
    "Expected " ++ toString expected ++ " arguments, found " ++ toString found
  | tooManyCalls _ _ => "The call that went too deep"

/-- The report of an error of a run. -/
def RuntimeError.report (e : RuntimeError) : Report :=
  ⟨e.category ++ ": " ++ e.message, e.label, some e.span⟩

/-- The report of a text that is no program. -/
def SourceError.report : SourceError → Report
  | lexical e => e.report
  | grammatical e => e.report

/-- The **report of a failure**. -/
def Failure.report : Failure → Report
  | source e => e.report
  | runtime e => e.report

/-! ### How it is drawn -/

namespace Report

/-- So many times the same character. -/
def rule (n : Nat) (c : Char) : String :=
  String.ofList (List.replicate n c)

/-- A line of the source as it is shown: without white space at its end, and with **a plain space
for any other** white space. -/
def shown (line : List Char) : String :=
  String.ofList ((Text.trimEnd line).map fun c => if Text.isWhiteSpace c then ' ' else c)

/-- A line number at the width of the widest. -/
def numbered (width number : Nat) : String :=
  let digits := toString number
  rule (width - digits.length) ' ' ++ digits

/-- The rows of a label on **part of one line**, from column `start` up to but without column
`stop`. -/
def singleLine (label : String) (width number : Nat) (line : List Char) (start stop : Nat) :
    List String :=
  let margin := " " ++ rule width ' ' ++ " │ "
  let source := " " ++ numbered width number ++ " │ " ++ shown line
  if stop ≤ start then
    [source, margin ++ rule start ' ' ++ "│", margin ++ rule start ' ' ++ "╰─ " ++ label]
  else
    let middle := (start + stop) / 2
    [source,
      margin ++ rule start ' ' ++ rule (middle - start) '─' ++ "┬" ++ rule (stop - middle - 1) '─',
      margin ++ rule middle ' ' ++ "╰" ++ rule (stop + 1 - middle) '─' ++ " " ++ label]

/-- The rows of a label that runs **from one line to another**. -/
def severalLines (label : String) (width first : Nat) (firstLine : List Char) (last : Nat)
    (lastLine : List Char) : List String :=
  let margin := " " ++ rule width ' '
  [" " ++ numbered width first ++ " │ ╭─▶ " ++ shown firstLine] ++
    (if last = first + 1 then [] else [margin ++ " ┆ ┆"]) ++
    [" " ++ numbered width last ++ " │ ├─▶ " ++ shown lastLine,
      margin ++ " │ │",
      margin ++ " │ ╰" ++ rule (lastLine.length + 5) '─' ++ " " ++ label]

/-- The rows below the message, if the place **lies in the source**. -/
def excerpt (r : Report) (name : String) (source : List Char) : List String :=
  let lines := Text.sourceLines source
  let span := r.span?.getD ⟨byteLength source, byteLength source⟩
  match Text.locate 1 lines span.start,
      Text.locate 1 lines (if span.start < span.stop then span.stop - 1 else span.start) with
  | some (first, firstLine, before), some (last, lastLine, upTo) =>
    let start := Text.charactersBefore firstLine before
    let stop :=
      if span.start < span.stop then Text.charactersBefore lastLine (upTo + 1) else start
    let width := (toString last).length
    let head := rule (width + 2) ' '
    [head ++ "╭─[ " ++ name ++ ":" ++ toString first ++ ":" ++ toString (start + 1) ++ " ]",
      head ++ "│"] ++
      (if first = last then singleLine r.label width first firstLine start stop
        else severalLines r.label width first firstLine last lastLine) ++
      [rule (width + 2) '─' ++ "╯"]
  | _, _ => []

/-- The **report as text**, about the source of the given name. -/
def draw (r : Report) (name source : String) : String :=
  String.join ((("Error: " ++ r.message) :: r.excerpt name source.toList).map (· ++ "\n"))

end Report

end ScopeScript
