import ScopeScript.Console.Brackets
import ScopeScript.Report

/-!
# The console

At the console one input after the other is run by **one interpreter**. An input is read line by
line until it is complete; the value that it gives is shown unless it is null, and a failure is
reported over the input. The console ends with the word `exit`, or when there is nothing more to
read.

The console itself only tells what happens when a line has been read: what goes to the output, what
to the error output, and how things stand then.

## Main definitions

* `ScopeScript.Console`: the interpreter, and the input that is not complete yet.
* `ScopeScript.Console.read`: what happens when a line has been read.
* `ScopeScript.Console.transcript`: a whole session.
-/

namespace ScopeScript

/-- **How things stand** at the console. -/
structure Console where
  /-- The interpreter that runs the inputs. -/
  interpreter : Interpreter
  /-- What has been read of an input that is not complete. -/
  pending : String

/-- What happens when a line **has been read**. -/
structure Console.Reply where
  /-- What is written to the output. -/
  printed : String
  /-- What is written to the error output. -/
  reported : String
  /-- How things stand then, unless the console ends. -/
  next : Option Console

namespace Console

/-- A new console. -/
def new : Console :=
  ⟨.new {}, ""⟩

/-- What is shown before each input. -/
def prompt : String := "ami> "

/-- What is shown at the beginning. -/
def greeting : String :=
  "AmiLang REPL v0.1.0\nType 'exit' or press Ctrl-D to quit.\nNo previous history.\n" ++ prompt

/-- What is shown when there is nothing more to read. -/
def farewell : String := "\nExiting.\n"

/-- A text **without the line end** behind it, and that line end. -/
def cutLineEnd (input : String) : String × String :=
  match input.toList.reverse with
  | '\n' :: '\r' :: cs => (String.ofList cs.reverse, "\r\n")
  | '\n' :: cs => (String.ofList cs.reverse, "\n")
  | _ => (input, "")

/-- Lines as they are printed. -/
def printedLines (lines : List String) : String :=
  String.join (lines.map (· ++ "\n"))

/-- Runs a complete input; there is no reply if the run comes to a bound. -/
def enter (c : Console) (bounds : Bounds) (input : String) : Option Reply :=
  let entered := String.ofList (Text.trim input.toList)
  if entered = "" then some ⟨prompt, "", some { c with pending := "" }⟩
  else if entered.toLower = "exit" then some ⟨"", "", none⟩
  else
    (c.interpreter.runSource bounds entered).map fun (result, it) =>
      let (lines, it) := it.takeOutput
      let printed := printedLines lines
      match result with
      | .ok .null => ⟨printed ++ prompt, "", some ⟨it, ""⟩⟩
      | .ok v => ⟨printed ++ "=> " ++ v.render ++ "\n" ++ prompt, "", some ⟨it, ""⟩⟩
      | .error e => ⟨printed ++ prompt, e.report.draw "REPL" entered, some ⟨it, ""⟩⟩

/-- What happens **when a line has been read**: it is added to what is pending; an input that is
complete then is run, one with brackets to close waits for the next line, and one with a bracket too
many is told so, and waits too. -/
def read (c : Console) (bounds : Bounds) (line : String) : Option Reply :=
  let (input, lineEnd) := cutLineEnd (c.pending ++ line)
  match Verdict.ofInput input with
  | .complete => c.enter bounds input
  | .incomplete => some ⟨"", "", some { c with pending := input ++ lineEnd }⟩
  | .unmatched bracket position =>
    let complaint := "'" ++ String.singleton bracket ++ "' at position " ++ toString position
    some ⟨"", "  - Unmatched " ++ complaint, some { c with pending := input }⟩

/-- Reads **all lines**; gives what is written to the output and to the error output. -/
def readAll (bounds : Bounds) (c : Console) : List String → Option (String × String)
  | [] => some (farewell, "")
  | line :: lines =>
    match c.read bounds line with
    | none => none
    | some ⟨printed, reported, none⟩ => some (printed, reported)
    | some ⟨printed, reported, some c⟩ =>
      (readAll bounds c lines).map fun (out, err) => (printed ++ out, reported ++ err)

/-- The **lines** of an input, each with its line feed. -/
def inputLines : List Char → List (List Char)
  | [] => []
  | c :: cs =>
    if c = '\n' then [c] :: inputLines cs
    else
      match inputLines cs with
      | [] => [[c]]
      | line :: lines => (c :: line) :: lines

/-- A **whole session** with the given input: what is written to the output and to the error
output. -/
def transcript (bounds : Bounds) (input : String) : Option (String × String) :=
  let lines := (inputLines input.toList).map String.ofList
  (readAll bounds new lines).map fun (out, err) => (greeting ++ out, err)

end Console

end ScopeScript
