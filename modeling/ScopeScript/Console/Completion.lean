import ScopeScript.Store
import ScopeScript.Text.Line
import ScopeScript.Token.Scan

/-!
# Completing names

When a name is being typed, the console offers **what it can still become**: the endings of the
names in sight and of the keywords that begin with it. It offers nothing unless the cursor stands
right behind a name.

## Main definitions

* `ScopeScript.Completion.nameBefore?`: the name that is being typed.
* `ScopeScript.Completion.endings`: what can be added to it.
* `ScopeScript.Completion.complete`: what is offered at a place in a line.
-/

namespace ScopeScript.Completion

/-- The **name that a text ends in**, if it is a list of tokens and the last of them is a name that
reaches to the end of the text. -/
def nameBefore? (text : String) : Option String :=
  match tokenize text with
  | .error _ => none
  | .ok tokens =>
    match (tokens.filter fun t => t.kind ≠ .endOfInput).getLast? with
    | some ⟨.identifier name, span⟩ =>
      if span.stop = byteLength text.toList then some name else none
    | _ => none

/-- What is left of `whole` behind `start`, if it begins with that and **goes on**. -/
def ending? (start whole : String) : Option String :=
  if start.toList <+: whole.toList ∧ start ≠ whole then
    some (String.ofList (whole.toList.drop start.toList.length))
  else none

/-- The names in sight and the keywords, in ascending order. -/
def vocabulary (names : List String) : List String :=
  Store.sortNames (names ++ Keyword.all.map Keyword.spelling)

/-- The **endings to offer** behind the text before the cursor, in ascending order. -/
def endings (names : List String) (text : String) : List String :=
  match nameBefore? text with
  | none => []
  | some start => (vocabulary names).filterMap (ending? start)

/-- What is offered **at byte `pos` of a line**: where the endings go, and the endings. -/
def complete (names : List String) (line : String) (pos : Nat) : Nat × List String :=
  (pos, endings names (String.ofList (Text.cutBytes pos line.toList).1))

end ScopeScript.Completion
