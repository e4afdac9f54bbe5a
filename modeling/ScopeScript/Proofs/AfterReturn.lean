import ScopeScript.Proofs.BlockScope
import ScopeScript.Proofs.Rewriting

/-!
# What stands after a return

A `return` leaves the innermost call, or the program, so that no statement behind it in the same
list is run. Which statements these are **does not matter**, wherever in a program the list stands
(`ScopeScript.run_eq_of_trimmed_eq`): they may be left out, put in or replaced.

A list of statements is cut off behind its first `return`, and two programs differ in nothing but
what stands after a `return` if they are the same once all their lists are cut off
(`ScopeScript.Program.trimmed`). That cutting a list off keeps what it does is seen from the list
alone; that it may be done to all lists of a program, those of its procedures included, holds of
any rewriting of lists that keeps what they do.
-/

namespace ScopeScript

/-- The statements **up to the first return**, which is the last of them if there is one. -/
def Stmt.upToReturn : List Stmt → List Stmt
  | [] => []
  | .exit e span :: _ => [.exit e span]
  | s :: ss => s :: upToReturn ss

/-- A `return` **hides what follows it**. -/
theorem Stmt.upToReturn_append (front : List Stmt) (e : Expr) (span : Span) (rest : List Stmt) :
    upToReturn (front ++ .exit e span :: rest) = upToReturn (front ++ [.exit e span]) := by
  induction front using upToReturn.induct with
  | case1 => rfl
  | case2 e' span' front => rfl
  | case3 s front hs ih =>
    rw [List.cons_append, List.cons_append, upToReturn, upToReturn, ih]
    · exact hs
    · exact hs

/-- A list of statements does **as much as its front up to the first return** does: an error or the
lack of an end in the value returned ends the run too. -/
theorem executeAll_upToReturn (opts : Options) (call : Caller) (turns : Nat) (site : Site)
    (last : Value) (ss : List Stmt) (st : State) :
    executeAll opts call turns site last (Stmt.upToReturn ss) st =
      executeAll opts call turns site last ss st := by
  induction ss using Stmt.upToReturn.induct generalizing last st with
  | case1 => rfl
  | case2 e span ss =>
    rw [Stmt.upToReturn, executeAll_cons, executeAll_cons, execute_exit]
    cases evaluate call site e st <;> rfl
  | case3 s ss hs ih =>
    rw [Stmt.upToReturn, executeAll_cons, executeAll_cons]
    · congr 1
      funext flow st
      cases flow with
      | normal v => exact ih v st
      | exit v => rfl
    · exact hs

/-- Cutting lists of statements off **behind their first return**. -/
def Rewriting.upToReturn : Rewriting :=
  ⟨Stmt.upToReturn, executeAll_upToReturn⟩

/-- The program **without the statements that stand after a return** in the same list, at whatever
depth. -/
def Program.trimmed (p : Program) : Program :=
  p.rewritten .upToReturn

/-- The value with the statements that stand after a return **left out of its declaration**, if it
is a closure. -/
def Value.trimmed (v : Value) : Value :=
  v.recoded Rewriting.upToReturn.recoding

/-- Values that are **no closures** are the same once they are trimmed only if they are the same. -/
theorem Value.eq_of_trimmed_eq {v w : Value} (h : v.trimmed = w.trimmed)
    (hv : ∀ c, v ≠ .closure c) : v = w := by
  rw [trimmed, recoded_of_ne hv] at h
  cases w with
  | closure c => exact absurd h (hv _)
  | _ => exact h

/-- What is told of a run, with the value trimmed. -/
def toldTrimmed (ran : Except RuntimeError Value × Interpreter) :
    Except RuntimeError Value × List String :=
  ((told ran).1.map Value.trimmed, (told ran).2)

/-- What is told of the trimmed program is **what is told of the program**. -/
theorem told_run_trimmed (opts : Options) (bounds : Bounds) (p : Program) :
    ((Interpreter.new opts).run bounds p.trimmed).map told =
      ((Interpreter.new opts).run bounds p).map toldTrimmed := by
  have hrun := (Interpreter.new opts).run_rewritten .upToReturn bounds p
  rw [Interpreter.rewritten_new] at hrun
  rw [Program.trimmed, hrun, Option.map_map]
  rfl

/-- **Statements after a return never matter.** Let two programs differ in nothing but the
statements that stand after a `return` in the same list, at any number of places and at any depth.
Run by new interpreters with the same options they print the same lines and come to the same error
or to the same value; if it is a closure, the declarations of the two stand at the same place, in
the same scope, and differ in nothing else either. Within whatever bounds, one of the runs ends if
the other does. -/
theorem run_eq_of_trimmed_eq {p q : Program} (h : p.trimmed = q.trimmed) (opts : Options)
    (bounds : Bounds) :
    ((Interpreter.new opts).run bounds p).map toldTrimmed =
      ((Interpreter.new opts).run bounds q).map toldTrimmed := by
  rw [← told_run_trimmed, ← told_run_trimmed, h]

/-- A program that prints what a procedure returns, and returns the procedure. The same statements
stand after **both returns**. -/
def returning (dead : List Stmt) : Program :=
  ⟨[.function "f" [] (.mk (.exit (.literal (.text "now") .none) .none :: dead) .none) .none,
    .print (.call (.name "f" .none) [] .none) .none,
    .exit (.name "f" .none) .none] ++ dead⟩

/-- Without the statements after its returns the program prints the same line, and so it does with
one there that would fail. Its value is the procedure. -/
theorem run_eq_of_trimmed_eq_returning :
    (returning []).trimmed = (returning [.print (.name "late" .none) .none]).trimmed ∧
    ((Interpreter.new {}).run ⟨0, 1⟩ (returning [])).map toldTrimmed =
      ((Interpreter.new {}).run ⟨0, 1⟩ (returning [.print (.name "late" .none) .none])).map
        toldTrimmed ∧
    ((Interpreter.new {}).run ⟨0, 1⟩ (returning [.print (.name "late" .none) .none])).map told =
      some (.ok (.closure ⟨0, ⟨"f", [], .mk [.exit (.literal (.text "now") .none) .none,
        .print (.name "late" .none) .none] .none⟩, ⟨0, []⟩⟩), ["now"]) :=
  ⟨rfl, run_eq_of_trimmed_eq rfl {} ⟨0, 1⟩, rfl⟩

end ScopeScript
