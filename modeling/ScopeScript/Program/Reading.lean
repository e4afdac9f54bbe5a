import ScopeScript.Program.Parser

/-!
# Programs as source text

A text is a program if it is a list of tokens and these spell one. The error of a text that is no
program is the error of the step that failed.

## Main definitions

* `ScopeScript.SourceError`: why a text is no program.
* `ScopeScript.Program.ofSource`: the program that a text spells.
-/

namespace ScopeScript

/-- Why a text is **no program**. -/
inductive SourceError where
  /-- The text is no list of tokens. -/
  | lexical (e : LexError)
  /-- The tokens spell no program. -/
  | grammatical (e : ParseError)
deriving DecidableEq

namespace SourceError

/-- The wording of the error. -/
def message : SourceError → String
  | lexical e => "Lexer Error during parse: " ++ e.message
  | grammatical e => e.message

end SourceError

/-- The span of a parse error; there is none at the end of the input. -/
def ParseError.span? : ParseError → Option Span
  | misplaced found _ => some found.span
  | cutShort _ => none
  | nestedTooDeep span => some span

/-- Where a text fails to be a program, unless it ends too early. -/
def SourceError.span? : SourceError → Option Span
  | lexical e => some e.span
  | grammatical e => e.span?

/-- The **program that a text spells**, or the first error in it. -/
def Program.ofSource (source : String) : Except SourceError Program :=
  match tokenize source with
  | .error e => .error (.lexical e)
  | .ok tokens =>
    match parse tokens with
    | .error e => .error (.grammatical e)
    | .ok p => .ok p

end ScopeScript
