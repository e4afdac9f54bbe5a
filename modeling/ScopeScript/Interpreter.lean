import ScopeScript.Evaluation
import ScopeScript.Program.Reading

/-!
# Interpreters

An interpreter runs one text after another **in the same global scope**, so that what one text
declares the next can use. It keeps the state of the run between the texts, and numbers the texts,
so that declarations of different texts stay different.

Every run is given bounds; a run that comes to one of them has no result. The bounds
`ScopeScript.Bounds.ample` are beyond what any run can come to in practice.

## Main definitions

* `ScopeScript.Bounds`: how long a run may go on.
* `ScopeScript.Interpreter`: options, global scope and state.
* `ScopeScript.Interpreter.run`: runs a program in the global scope.
* `ScopeScript.Failure`: why a text has no value, and `ScopeScript.Interpreter.runSource`.
-/

namespace ScopeScript

/-- **How long a run may go on**. -/
structure Bounds where
  /-- How many turns each loop may take. -/
  turns : Nat
  /-- How deeply calls may nest. -/
  calls : Nat

/-- Bounds that **no run comes to in practice**. -/
def Bounds.ample : Bounds :=
  ⟨0x4000000000000000, 0x4000000000000000⟩

/-- Why running a text **gives no value**. -/
inductive Failure where
  /-- The text is no program. -/
  | source (e : SourceError)
  /-- The program fails when it is run. -/
  | runtime (e : RuntimeError)

/-- The sort of failure that users are told. -/
def Failure.category : Failure → String
  | source (.lexical _) => "LexError"
  | source (.grammatical _) => "ParseError"
  | runtime e => e.category

/-- The state of a run before its first step: the builtin procedure in a global frame. -/
def State.initial : Scope × State :=
  let (globals, store) := Store.empty.root
  (globals, ⟨store.define globals Keyword.print.spelling .builtin, #[], 0⟩)

/-- An **interpreter**: what lasts from one text to the next. -/
structure Interpreter where
  /-- What was chosen about the runs. -/
  options : Options
  /-- The global scope. -/
  globals : Scope
  /-- The number of texts read so far. -/
  texts : Nat
  /-- The state of the run. -/
  state : State

namespace Interpreter

/-- A **new interpreter**. -/
def new (options : Options) : Interpreter :=
  let (globals, state) := State.initial
  ⟨options, globals, 0, state⟩

/-- The interpreter after a step of a run, with what came of the step; there is none if the step
came to a bound. -/
def perform {α : Type} (it : Interpreter) (step : Eval α) :
    Option (Except RuntimeError α × Interpreter) :=
  match step it.state with
  | .done a st => some (.ok a, { it with state := st })
  | .failed e st => some (.error e, { it with state := st })
  | .unfinished => none

/-- The place where the **next text** runs, and the interpreter that has read it. The number of the
text tells its declarations from those of all others (`ScopeScript.Closure.same`). -/
def nextText (it : Interpreter) : Site × Interpreter :=
  (⟨it.texts, it.globals⟩, { it with texts := it.texts + 1 })

/-- Answers a call from outside. -/
def call (it : Interpreter) (bounds : Bounds) : Caller :=
  ScopeScript.call it.options bounds.turns bounds.calls

/-- Runs a statement of a text. -/
def execute (it : Interpreter) (bounds : Bounds) (site : Site) (s : Stmt) : Eval Flow :=
  ScopeScript.execute it.options (it.call bounds) bounds.turns site s

/-- Runs statements of a text as a block. -/
def executeBlock (it : Interpreter) (bounds : Bounds) (site : Site) (b : Block) : Eval Flow :=
  ScopeScript.executeBlock it.options (it.call bounds) bounds.turns site b

/-- Runs statements of a text one after the other. -/
def executeAll (it : Interpreter) (bounds : Bounds) (site : Site) (ss : List Stmt) :
    Eval Flow :=
  ScopeScript.executeAll it.options (it.call bounds) bounds.turns site .null ss

/-- Runs a **program in the global scope**. Its value is that of its last statement, or the one that
a `return` outside all procedures leaves it with. Each run counts as a text of its own, as a text is
read again whenever it is to be run: a program that is run twice declares its procedures anew. -/
def run (it : Interpreter) (bounds : Bounds) (p : Program) :
    Option (Except RuntimeError Value × Interpreter) :=
  let (site, it) := it.nextText
  it.perform do return (← it.executeAll bounds site p.statements).value

/-- Runs a **text in the global scope**, if it is a program. -/
def runSource (it : Interpreter) (bounds : Bounds) (source : String) :
    Option (Except Failure Value × Interpreter) :=
  match Program.ofSource source with
  | .error e => some (.error (.source e), it)
  | .ok p =>
    match it.run bounds p with
    | some (.ok v, it) => some (.ok v, it)
    | some (.error e, it) => some (.error (.runtime e), it)
    | none => none

/-- Binds a global name. -/
def define (it : Interpreter) (name : String) (v : Value) : Interpreter :=
  { it with state := { it.state with store := it.state.store.define it.globals name v } }

/-- The global names, in ascending order. -/
def names (it : Interpreter) : List String :=
  it.state.store.names it.globals

/-- The lines printed and not yet taken. -/
def output (it : Interpreter) : List String :=
  it.state.output.toList

/-- The interpreter with its output **taken away**. -/
def takeOutput (it : Interpreter) : List String × Interpreter :=
  (it.output, { it with state := { it.state with output := #[] } })

/-- The interpreter **started afresh**: the old global frame is emptied, so closures that are kept
from before no longer find anything in it. -/
def reset (it : Interpreter) : Interpreter :=
  let (globals, store) := (it.state.store.clear it.globals).root
  { it with
    globals := globals
    state := ⟨store.define globals Keyword.print.spelling .builtin, #[], 0⟩ }

end Interpreter

/-- Runs a text **by itself**: its value or the failure, and the lines that it printed. -/
def runSource (options : Options) (bounds : Bounds) (source : String) :
    Option (Except Failure Value × List String) :=
  ((Interpreter.new options).runSource bounds source).map fun (result, it) => (result, it.output)

end ScopeScript
