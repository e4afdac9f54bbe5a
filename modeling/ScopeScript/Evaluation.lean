import ScopeScript.Store.ScopeEnd
import ScopeScript.Value.Operators

/-!
# Running programs

Running is a walk over the program that reads and changes a state: the store of frames, the lines
printed so far, and the number of calls in progress. A statement that fails leaves the state as it
was when it failed, but for the scopes that end on the way out.

A procedure may call itself and a loop may go on for ever, so running takes two bounds: how many
turns each loop may take, and how deeply calls may nest. A run that comes to a bound is
**unfinished**, which is neither a value nor an error. Expressions and statements are walked over by
recursion on the program, with the answer to calls as a parameter; the answer where `n + 1` calls
may nest runs the body of the procedure with the answer where `n` may.

## Main definitions

* `ScopeScript.RuntimeError`: what can go wrong in a run.
* `ScopeScript.Options`, `ScopeScript.State`, `ScopeScript.Outcome`, `ScopeScript.Eval`
* `ScopeScript.evaluate`, `ScopeScript.execute`, `ScopeScript.executeAll`: expressions, statements
  and lists of statements.
* `ScopeScript.call`: calls, by how deeply they may nest.
-/

namespace ScopeScript

/-! ### Errors -/

/-- What can **go wrong in a run**, and where. -/
inductive RuntimeError where
  /-- A name that no frame in sight binds. -/
  | unknownName (name : String) (span : Span)
  /-- Operands that do not fit their operator. -/
  | wrongOperands (fault : TypeFault) (span : Span)
  /-- A call of a value that is no procedure. -/
  | notCallable (shown : String) (span : Span)
  /-- A call with the wrong number of arguments. -/
  | wrongArgumentCount (name : String) (expected found : Nat) (span : Span)
  /-- A call beyond the limit. -/
  | tooManyCalls (limit : Nat) (span : Span)
deriving DecidableEq

namespace RuntimeError

/-- Where the error arose. -/
def span : RuntimeError → Span
  | unknownName _ s => s
  | wrongOperands _ s => s
  | notCallable _ s => s
  | wrongArgumentCount _ _ _ s => s
  | tooManyCalls _ s => s

/-- The sort of error that users are told. -/
def category : RuntimeError → String
  | unknownName _ _ => "UndefinedNameError"
  | wrongOperands _ _ => "TypeError"
  | notCallable _ _ => "TypeError"
  | wrongArgumentCount _ _ _ _ => "ArityError"
  | tooManyCalls _ _ => "RecursionError"

/-- The wording of the error. -/
def message : RuntimeError → String
  | unknownName name _ => "Undefined name: '" ++ name ++ "'"
  | wrongOperands fault _ =>
    "Type Error: Expected " ++ fault.expected ++ ", but got " ++ fault.found
  | notCallable shown _ => "Type Error: Expected a procedure, but got: " ++ shown
  | wrongArgumentCount name expected found _ =>
    "Arity Error: '" ++ name ++ "' expects " ++ toString expected ++ " arguments, got " ++
      toString found
  | tooManyCalls limit _ =>
    "Recursion Error: maximum call depth of " ++ toString limit ++ " exceeded"

end RuntimeError

/-! ### States and steps -/

/-- How deeply calls may nest **unless something else is chosen**. -/
def defaultCallDepth : Nat := 256

/-- What can be **chosen** about a run. Where its lines go is not among it: a run keeps them, and
whoever runs the program writes them out. -/
structure Options where
  /-- Calls must have as many arguments as there are parameters; otherwise missing arguments are
  null and those in excess are dropped. -/
  strictArity : Bool := false
  /-- How deeply calls may nest before the run fails. A command always sets a limit; runs without
  one are what runs with a limit are held against. -/
  maxCallDepth : Option Nat := some defaultCallDepth
  /-- Scopes that have ended are let go of. A command always does so; runs that keep all scopes are
  what the others are held against. -/
  reclaim : Bool := true

/-- The **state** of a run. -/
structure State where
  /-- The frames. -/
  store : Store
  /-- The lines printed so far. -/
  output : Array String
  /-- The number of calls in progress. -/
  depth : Nat

/-- How a step of a run **came out**. -/
inductive Outcome (α : Type) where
  /-- It gave a result. -/
  | done (result : α) (st : State)
  /-- It failed. -/
  | failed (e : RuntimeError) (st : State)
  /-- It came to a bound. -/
  | unfinished

/-- Goes on from a **result**; an error and the lack of an end stay what they are. -/
@[inline] def Outcome.andThen {α β : Type} (o : Outcome α) (f : α → State → Outcome β) :
    Outcome β :=
  match o with
  | done a st => f a st
  | failed e st => failed e st
  | unfinished => unfinished

/-- A **step of a run**: from the state before it to how it came out. -/
def Eval (α : Type) : Type :=
  State → Outcome α

namespace Eval

/-- The step that only gives a result. -/
@[inline] protected def pure {α : Type} (a : α) : Eval α :=
  fun st => .done a st

/-- One step **after another**; an error or a bound ends the run. -/
@[inline] protected def bind {α β : Type} (p : Eval α) (f : α → Eval β) : Eval β :=
  fun st => (p st).andThen f

instance : Monad Eval where
  pure := Eval.pure
  bind := Eval.bind

@[simp] theorem pure_apply {α : Type} (a : α) (st : State) : (pure a : Eval α) st = .done a st :=
  rfl

@[simp] theorem bind_apply {α β : Type} (p : Eval α) (f : α → Eval β) (st : State) :
    (p >>= f) st = (p st).andThen f :=
  rfl

/-- The step that fails. -/
def fail {α : Type} (e : RuntimeError) : Eval α :=
  fun st => .failed e st

/-- The step that comes to a bound. -/
def unfinished {α : Type} : Eval α :=
  fun _ => .unfinished

/-- Prints a line. -/
def printLine (line : String) : Eval Unit :=
  fun st => .done () { st with output := st.output.push line }

/-- Binds a name in the innermost frame of a scope. -/
def define (s : Scope) (name : String) (v : Value) : Eval Unit :=
  fun st => .done () { st with store := st.store.define s name v }

/-- The value of a name used at the given place. -/
def lookup (s : Scope) (name : String) (span : Span) : Eval Value :=
  fun st =>
    match st.store.get? s name with
    | some v => .done v st
    | none => .failed (.unknownName name span) st

/-- The result of an operator at the given place. -/
def ofOperator (span : Span) : Except TypeFault Value → Eval Value
  | .ok v => Eval.pure v
  | .error fault => fail (.wrongOperands fault span)

end Eval

/-! ### The shape of a run -/

/-- **Where code runs**: the text that it stands in, and its scope. -/
structure Site where
  /-- The number of the text. -/
  text : Nat
  /-- The scope. -/
  scope : Scope

/-- How a statement **ends**, with its value. -/
inductive Flow where
  /-- The next statement follows. -/
  | normal (v : Value)
  /-- The innermost call is left. -/
  | exit (v : Value)

/-- The value with which a statement ends. -/
def Flow.value : Flow → Value
  | normal v => v
  | exit v => v

/-- How calls are **answered**: from the value called, the arguments and the place of the call. -/
abbrev Caller : Type := Value → List Value → Span → Eval Value

/-- The state when a scope **has ended**. -/
def State.leave (st : State) (opts : Options) (s : Scope) (survivor : Option Value) : State :=
  if opts.reclaim then { st with store := st.store.endScope s survivor } else st

/-- Runs code in a scope, which **ends with it**, whether it fails or not. -/
def Eval.ending (opts : Options) (s : Scope) (body : Eval Flow) : Eval Flow :=
  fun st =>
    match body st with
    | .done flow st => .done flow (st.leave opts s (some flow.value))
    | .failed e st => .failed e (st.leave opts s none)
    | .unfinished => .unfinished

/-- Runs code in a **new scope** inside the given one. -/
def Eval.enclosed (opts : Options) (site : Site) (body : Site → Eval Flow) : Eval Flow :=
  fun st =>
    let (inner, store) := st.store.enclose site.scope
    Eval.ending opts inner (body ⟨site.text, inner⟩) { st with store := store }

/-- Runs a body **while a test holds**, for so many turns at most. -/
def Eval.repeatWhile (test : Eval Value) (body : Eval Flow) : Nat → Eval Flow
  | 0 => Eval.unfinished
  | n + 1 => do
    if (← test).truthy then
      match ← body with
      | .exit v => return .exit v
      | .normal _ => Eval.repeatWhile test body n
    else
      return .normal .null

/-! ### Expressions -/

mutual

/-- The **value of an expression**. Operands and arguments are evaluated from left to right, the
callee first. -/
def evaluate (call : Caller) (site : Site) : Expr → Eval Value
  | .literal v _ => return v.value
  | .name id span => Eval.lookup site.scope id span
  | .binary op l r span => do
    let a ← evaluate call site l
    let b ← evaluate call site r
    Eval.ofOperator span (op.apply a b)
  | .logical op l r _ => do
    let a ← evaluate call site l
    if op.decides a then return a else evaluate call site r
  | .unary op e span => do
    let a ← evaluate call site e
    Eval.ofOperator span (op.apply a)
  | .call f args span => do
    let callee ← evaluate call site f
    let values ← evaluateAll call site args
    call callee values span

/-- The values of several expressions. -/
def evaluateAll (call : Caller) (site : Site) : List Expr → Eval (List Value)
  | [] => return []
  | e :: es => do
    let v ← evaluate call site e
    let vs ← evaluateAll call site es
    return v :: vs

end

/-! ### Statements -/

mutual

/-- Runs a **statement**. The value of a declaration is the value bound, that of a block or of a
conditional the value of the last statement run; loops and `print` have the value null. A loop has
one scope for all its turns, in which its test is evaluated too. -/
def execute (opts : Options) (call : Caller) (turns : Nat) (site : Site) : Stmt → Eval Flow
  | .declare name none _ => do
    Eval.define site.scope name .null
    return .normal .null
  | .declare name (some e) _ => do
    let v ← evaluate call site e
    Eval.define site.scope name v
    return .normal v
  | .print e _ => do
    let v ← evaluate call site e
    Eval.printLine v.render
    return .normal .null
  | .block b => executeBlock opts call turns site b
  | .conditional test b c _ => do
    if (← evaluate call site test).truthy then
      executeBlock opts call turns site b
    else
      match c with
      | some c => executeBlock opts call turns site c
      | none => return .normal .null
  | .loop test (.mk body _) _ =>
    Eval.enclosed opts site fun inner =>
      Eval.repeatWhile (evaluate call inner test) (executeAll opts call turns inner .null body)
        turns
  | .function name params body _ => do
    let v := Value.closure ⟨site.text, ⟨name, params, body⟩, site.scope⟩
    Eval.define site.scope name v
    return .normal v
  | .exit e _ => return .exit (← evaluate call site e)
  | .expression e => return .normal (← evaluate call site e)

/-- Runs a **block** in a new scope. -/
def executeBlock (opts : Options) (call : Caller) (turns : Nat) (site : Site) : Block → Eval Flow
  | .mk ss _ => Eval.enclosed opts site fun inner => executeAll opts call turns inner .null ss

/-- Runs **statements one after the other** until one leaves the call; `last` is the value if there
are none. -/
def executeAll (opts : Options) (call : Caller) (turns : Nat) (site : Site) (last : Value) :
    List Stmt → Eval Flow
  | [] => return .normal last
  | s :: ss => do
    match ← execute opts call turns site s with
    | .normal v => executeAll opts call turns site v ss
    | .exit v => return .exit v

end

/-! ### Calls -/

/-- Binds **parameters to arguments** in order; a parameter without an argument is null. -/
def Store.bindAll (st : Store) (s : Scope) : List String → List Value → Store
  | [], _ => st
  | p :: ps, [] => (st.define s p .null).bindAll s ps []
  | p :: ps, v :: vs => (st.define s p v).bindAll s ps vs

/-- Runs the body of a closure in a new scope inside **the scope that it was declared in**, with the
parameters bound there, as one more call in progress. -/
def Eval.activation (opts : Options) (runBody : Site → List Stmt → Eval Flow) (c : Closure)
    (args : List Value) : Eval Value :=
  fun st =>
    let (inner, store) := st.store.enclose c.scope
    let store := store.bindAll inner c.decl.params args
    match runBody ⟨c.text, inner⟩ c.decl.body.statements ⟨store, st.output, st.depth + 1⟩ with
    | .done flow st =>
      .done flow.value ({ st with depth := st.depth - 1 }.leave opts inner (some flow.value))
    | .failed e st => .failed e ({ st with depth := st.depth - 1 }.leave opts inner none)
    | .unfinished => .unfinished

/-- **Answers a call**, given how bodies are run: the builtin procedure prints its arguments in one
line; a closure is called if the number of arguments is right and the limit is not reached; no other
value can be called. -/
def answer (opts : Options) (runBody : Site → List Stmt → Eval Flow) : Caller
  | .builtin, args, _ => do
    Eval.printLine (" ".intercalate (args.map Value.render))
    return .null
  | .closure c, args, span =>
    if opts.strictArity ∧ args.length ≠ c.decl.params.length then
      Eval.fail (.wrongArgumentCount c.decl.name c.decl.params.length args.length span)
    else fun st =>
      match opts.maxCallDepth with
      | some limit =>
        if limit ≤ st.depth then .failed (.tooManyCalls limit span) st
        else Eval.activation opts runBody c args st
      | none => Eval.activation opts runBody c args st
  | v, _, span => Eval.fail (.notCallable v.render span)

/-- **Calls**, where loops take so many turns at most and so many calls may nest. -/
def call (opts : Options) (turns : Nat) : Nat → Caller
  | 0, v, args, span => answer opts (fun _ _ => Eval.unfinished) v args span
  | n + 1, v, args, span =>
    answer opts (fun site body => executeAll opts (call opts turns n) turns site .null body) v args
      span

end ScopeScript
