import ScopeScript.Program.Listing
import ScopeScript.Report

/-!
# The command line

The command takes the name of a file and runs the program in it, or shows its tokens or its listing.
Options may stand before the name and behind it, each at most once.

The command works on its arguments and on a way to read files, and gives what it writes and the code
with which it exits: `0` for success, `1` for a failure, `2` if the arguments are wrong.

## Main definitions

* `ScopeScript.Command`: what the arguments ask for, and `ScopeScript.Command.ofArguments`.
* `ScopeScript.Command.perform`: what comes of it.
-/

namespace ScopeScript

/-- What is to be **done with a program**. -/
inductive Command.Task where
  /-- Run it. -/
  | run
  /-- Show its tokens. -/
  | tokens
  /-- Show its listing. -/
  | listing
deriving DecidableEq

/-- What the **arguments ask for**. -/
inductive Command where
  /-- To say which version this is. -/
  | version
  /-- To say how the command is used. -/
  | help
  /-- To do something with the program in a file. -/
  | file (path : String) (task : Command.Task) (options : Options)

namespace Command

/-! ### Arguments -/

/-- The options and the name **read so far**. -/
structure Draft where
  /-- The name of the file. -/
  path : Option String := none
  /-- The numbers of arguments and parameters must agree. -/
  strictArity : Bool := false
  /-- The limit on nested calls. -/
  maxCallDepth : Option Nat := none
  /-- The tokens are to be shown. -/
  tokens : Bool := false
  /-- The listing is to be shown. -/
  listing : Bool := false

/-- A **number of the machine's word size**: digits, perhaps with a plus before them. -/
def wordNumeral? (s : String) : Option Nat :=
  let digits := match s.toList with
    | '+' :: ds => ds
    | ds => ds
  if digits ≠ [] ∧ digits.all Char.isDigit ∧ Nat.ofDigitChars 10 digits 0 < UInt64.size then
    some (Nat.ofDigitChars 10 digits 0)
  else none

/-- Takes the name of the file, if there is none yet. -/
def Draft.withPath (d : Draft) (path : String) : Option Draft :=
  if path = "" ∨ d.path.isSome then none else some { d with path := some path }

/-- Takes the limit on nested calls, if there is none yet. -/
def Draft.withLimit (d : Draft) (numeral : String) : Option Draft :=
  if d.maxCallDepth.isSome then none
  else (wordNumeral? numeral).map fun n => { d with maxCallDepth := some n }

/-- What has been read when there are **no more arguments**. -/
def Draft.command (d : Draft) : Option Command :=
  match d.path, d.tokens, d.listing with
  | none, _, _ => none
  | _, true, true => none
  | some path, tokens, listing =>
    some (.file path (if tokens then .tokens else if listing then .listing else .run)
      { strictArity := d.strictArity, maxCallDepth := some (d.maxCallDepth.getD defaultCallDepth) })

/-- The option that gives the limit on nested calls. -/
def limitOption : String := "--max-call-depth"

/-- Takes an argument that is **no option with a value**: a flag that was not given before, or the
name of the file. -/
def Draft.withArgument (d : Draft) (argument : String) : Option Draft :=
  if argument = "--strict-arity" then
    if d.strictArity then none else some { d with strictArity := true }
  else if argument = "--tokens" then
    if d.tokens then none else some { d with tokens := true }
  else if argument = "--ast" then
    if d.listing then none else some { d with listing := true }
  else if (limitOption ++ "=").toList <+: argument.toList then
    d.withLimit (String.ofList (argument.toList.drop (limitOption ++ "=").toList.length))
  else if argument ≠ "-" ∧ argument.toList.head? = some '-' then none
  else d.withPath argument

/-- Reads the arguments **one after the other**; there is no command if one of them is wrong. -/
def readArguments (d : Draft) : List String → Option Command
  | [] => d.command
  | ["--max-call-depth"] => none
  | "--max-call-depth" :: numeral :: rest =>
    match d.withLimit numeral with
    | some d => readArguments d rest
    | none => none
  | "--" :: rest =>
    match rest.foldl (fun d path => d.bind (·.withPath path)) (some d) with
    | some d => d.command
    | none => none
  | argument :: rest =>
    if argument = "--version" ∨ ['-', 'V'] <+: argument.toList then some .version
    else if argument = "--help" ∨ ['-', 'h'] <+: argument.toList then some .help
    else
      match d.withArgument argument with
      | some d => readArguments d rest
      | none => none

/-- What the **arguments** ask for. -/
def ofArguments (arguments : List String) : Option Command :=
  readArguments {} arguments

/-! ### What comes of it -/

/-- Why a file **cannot be read**. -/
inductive ReadFault where
  /-- There is no such file. -/
  | missing
  /-- It is a directory. -/
  | directory
  /-- Its bytes are no text. -/
  | notText
  /-- For another reason. -/
  | other (reason : String)
deriving DecidableEq

/-- The wording of the reason. -/
def ReadFault.message : ReadFault → String
  | missing => "No such file or directory (os error 2)"
  | directory => "Is a directory (os error 21)"
  | notText => "stream did not contain valid UTF-8"
  | other reason => reason

/-- The text in the bytes of a file. -/
def decode (bytes : ByteArray) : Except ReadFault String :=
  match String.fromUTF8? bytes with
  | some s => .ok s
  | none => .error .notText

/-- **What a command did**: what it wrote, and the code with which it exits. -/
structure Result where
  /-- The code with which the command exits. -/
  exit : Nat
  /-- What it wrote to the output. -/
  printed : String
  /-- What it wrote to the error output. -/
  reported : String

/-- A token as it is shown: its span, flush right, and what it is. -/
def tokenLine (t : Token) : String :=
  let span := t.span.text
  Report.rule (10 - span.length) ' ' ++ span ++ "  " ++ t.kind.describe ++ "\n"

/-- How the command is used. -/
def usage : String :=
  "Usage: amilang [OPTIONS] <FILE>\n"

/-- What comes of a command; `none` if the run comes to a bound. -/
def perform (bounds : Bounds) (read : String → Except ReadFault String) : Command → Option Result
  | version => some ⟨0, "amilang 0.1.0\n", ""⟩
  | help => some ⟨0, usage, ""⟩
  | file path task options =>
    match read path with
    | .error fault => some ⟨1, "", "Error: cannot read " ++ path ++ ": " ++ fault.message ++ "\n"⟩
    | .ok source =>
      match task, tokenize source, Program.ofSource source with
      | _, .error e, _ => some ⟨1, "", e.report.draw path source⟩
      | .tokens, .ok tokens, _ => some ⟨0, String.join (tokens.map tokenLine), ""⟩
      | _, _, .error e => some ⟨1, "", e.report.draw path source⟩
      | .listing, _, .ok p => some ⟨0, p.listing ++ "\n", ""⟩
      | .run, _, .ok _ =>
        (runSource options bounds source).map fun (result, lines) =>
          let printed := String.join (lines.map (· ++ "\n"))
          match result with
          | .ok _ => ⟨0, printed, ""⟩
          | .error e => ⟨1, printed, e.report.draw path source⟩

end Command

end ScopeScript
