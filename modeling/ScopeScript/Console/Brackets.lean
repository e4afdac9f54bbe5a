import ScopeScript.Text.Span

/-!
# Is the input complete?

At the console an input may take several lines. It is taken as complete when **every bracket and
every quote in it is closed**, and goes on into the next line otherwise. A closing bracket that
matches no opening one can never be made good, so it is told at once.

Only brackets in the code count: those in string literals and in comments do not.

## Main definitions

* `ScopeScript.Verdict`: complete, incomplete, or wrong.
* `ScopeScript.Verdict.ofInput`: the verdict on an input.
-/

namespace ScopeScript

/-- What the brackets of an input **say about it**. -/
inductive Verdict where
  /-- All are closed. -/
  | complete
  /-- Some are open, or a string literal is. -/
  | incomplete
  /-- A closing bracket, at the given byte, matches no opening one. -/
  | unmatched (bracket : Char) (position : Nat)
deriving DecidableEq

namespace Verdict

/-- **Where the reading stands**: what the next character belongs to. -/
inductive Mode where
  /-- Code. -/
  | code
  /-- A comment, up to the end of its line. -/
  | comment
  /-- A string literal with the given quote. -/
  | literal (quote : Char)
  /-- A string literal with the given quote, behind a backslash. -/
  | escape (quote : Char)
deriving DecidableEq

/-- The bracket that a closing bracket answers. -/
def opening (c : Char) : Char :=
  if c = ')' then '(' else '\x7b'

/-- Reads an input from byte `pos` on; `opened` are the brackets **still open**, the last one
first. -/
def scan (mode : Mode) (opened : List Char) (pos : Nat) : List Char → Verdict
  | [] =>
    match mode with
    | .literal _ | .escape _ => incomplete
    | .code | .comment => if opened = [] then complete else incomplete
  | c :: cs =>
    let go (mode : Mode) (opened : List Char) := scan mode opened (pos + c.utf8Size) cs
    match mode with
    | .escape quote => go (.literal quote) opened
    | .literal quote =>
      go (if c = '\\' then .escape quote else if c = quote then .code else .literal quote) opened
    | .comment => go (if c = '\n' then .code else .comment) opened
    | .code =>
      if c = '"' ∨ c = '\x27' then go (.literal c) opened
      else if c = '/' ∧ cs.head? = some '/' then go .comment opened
      else if c = '(' ∨ c = '\x7b' then go .code (c :: opened)
      else if c = ')' ∨ c = '\x7d' then
        match opened with
        | [] => unmatched c pos
        | o :: rest => if o = opening c then go .code rest else unmatched c pos
      else go .code opened

/-- The verdict on an **input**. -/
def ofInput (input : String) : Verdict :=
  scan .code [] 0 input.toList

end Verdict

end ScopeScript
