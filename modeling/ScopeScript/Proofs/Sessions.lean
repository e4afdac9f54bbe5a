import Mathlib.Logic.Relation
import ScopeScript.Console
import ScopeScript.Proofs.ErrorSpans

/-!
# Reports at the console

At the console **a failure is reported over the input that has been entered, but its span need not
belong there** (`ScopeScript.Console.report_points`). It does whenever the input is no program, and
whenever the failing expression stands in the input itself. A procedure that an earlier input
declared keeps the spans of that input, though, and so does an error in its body: the span points
into the earlier input, and the excerpt is taken from the later one. Then it may be a place that the
input does not have (`ScopeScript.Console.report_outside`).

What lasts from one input to the next is the store. The closures in it are made of procedures that
some input of the session declared, which each input that runs keeps true of itself and those before
it (`ScopeScript.Console.Session.madeOf`).
-/

namespace ScopeScript

open Relation

/-! ### Where in a program -/

/-- A node is another one or **somewhere below it**. -/
def Node.Below (node : Node) : Node → Prop :=
  ReflTransGen (fun parent child => child ∈ parent.children) node

theorem Program.Has.descend {p : Program} {node below : Node} (h : p.Has node)
    (hbelow : node.Below below) : p.Has below := by
  induction hbelow with
  | refl => exact h
  | tail _ hchild ih => exact .child ih hchild

/-- The program **declares a procedure** with the body. -/
def Program.Declares (p : Program) (b : Block) : Prop :=
  ∃ name params span, p.Has (.stmt (.function name params b span))

theorem Program.Declares.has {p : Program} {b : Block} (h : p.Declares b) : p.Has (.block b) := by
  obtain ⟨name, params, span, h⟩ := h
  exact .child h (List.mem_singleton_self _)

/-- Some text is a program that **declares a procedure** with the body. -/
def DeclaredIn (texts : List String) (b : Block) : Prop :=
  ∃ text ∈ texts, ∃ p, Program.ofSource text = .ok p ∧ p.Declares b

/-- The error is raised **in the body of a procedure** that the text declares. -/
def RuntimeError.InBody (text : String) (e : RuntimeError) : Prop :=
  ∃ p b ex, Program.ofSource text = .ok p ∧ p.Declares b ∧
    (Node.block b).Below (.expr ex) ∧ ex.span = e.span ∧ e.About ex

/-- **The code that can run** when a program runs after some texts: the program, and the bodies of
the procedures that the texts declare. -/
def Program.codeAfter (texts : List String) (p : Program) : Code where
  Has node := p.Has node ∨ ∃ b, DeclaredIn texts b ∧ (Node.block b).Below node
  Body b := p.Declares b ∨ DeclaredIn texts b
  child h hchild := h.imp (.child · hchild) fun ⟨b, hb, hbelow⟩ => ⟨b, hb, hbelow.tail hchild⟩
  declares := by
    rintro name params b span (h | ⟨b', ⟨text, htext, p', hp', hb'⟩, hbelow⟩)
    · exact .inl ⟨name, params, span, h⟩
    · exact .inr ⟨text, htext, p', hp', name, params, span, hb'.has.descend hbelow⟩
  body h := h.imp Program.Declares.has fun h => ⟨_, h, .refl⟩

/-- Where no program runs, **the texts are all there is**. -/
theorem Program.not_declares_nil {b : Block} : ¬ Program.Declares ⟨[]⟩ b := by
  rintro ⟨name, params, span, h⟩
  generalize Node.stmt (.function name params b span) = node at h
  induction h with
  | statement h => cases h
  | child _ _ ih => exact ih

/-- The texts **with the program as one more** of them. -/
theorem DeclaredIn.of_body {texts : List String} {text : String} {p : Program} {b : Block}
    (hp : Program.ofSource text = .ok p) (h : (p.codeAfter texts).Body b) :
    DeclaredIn (texts ++ [text]) b := by
  rcases h with h | ⟨text', htext', h⟩
  · exact ⟨text, by simp, p, hp, h⟩
  · exact ⟨text', List.mem_append_left _ htext', h⟩

/-- An error that such code raises points **into the text of the program**, or it is raised in a
body of an earlier text and points into that. -/
theorem RuntimeError.From.pointsInto_or {texts : List String} {text : String} {p : Program}
    {e : RuntimeError} (h : e.From (p.codeAfter texts)) (hp : Program.ofSource text = .ok p) :
    e.PointsInto text ∨ ∃ earlier ∈ texts, e.InBody earlier ∧ e.PointsInto earlier := by
  obtain ⟨ex, hhas | ⟨b, ⟨earlier, hmem, q, hq, hb⟩, hbelow⟩, hspan, habout⟩ := h
  · exact .inl (RuntimeError.From.pointsInto ⟨ex, hhas, hspan, habout⟩ hp)
  · exact .inr ⟨earlier, hmem, ⟨q, b, ex, hq, hb, hbelow, hspan, habout⟩,
      RuntimeError.From.pointsInto ⟨ex, hb.has.descend hbelow, hspan, habout⟩ hq⟩

/-- The place where a span ends **is in the source**, if the span cuts a text out of it. -/
theorem Span.Cuts.stop_le {s : Span} {source text : String} (h : s.Cuts source text) :
    s.stop ≤ source.utf8ByteSize := by
  obtain ⟨before, after, rfl, rfl⟩ := h
  rw [String.utf8ByteSize_append, String.utf8ByteSize_append]
  exact Nat.le_add_right ..

/-- A report has **at least its message**. -/
theorem Report.draw_ne_empty (r : Report) (name source : String) : r.draw name source ≠ "" := by
  rw [Report.draw, List.map_cons, String.join_cons]
  simp

/-! ### Sessions -/

namespace Console

/-- The text **that is entered** when a line has been read: the whole input without white space at
its ends, if it is complete then. -/
def entered? (c : Console) (line : String) : Option String :=
  let input := (cutLineEnd (c.pending ++ line)).1
  if Verdict.ofInput input = .complete then some (String.ofList (Text.trim input.toList)) else none

/-- **A session**: the texts entered so far, and how things stand then. -/
inductive Session (bounds : Bounds) : List String → Console → Prop
  /-- Nothing has been read. -/
  | new : Session bounds [] .new
  /-- One more line is read. -/
  | line {texts c line reply next} (h : Session bounds texts c)
    (hread : c.read bounds line = some reply) (hnext : reply.next = some next) :
    Session bounds (texts ++ (c.entered? line).toList) next

variable {bounds : Bounds} {c next : Console} {line text : String} {reply : Reply}
  {texts : List String}

/-- While the input is not complete, **nothing runs**. -/
theorem interpreter_of_waiting (hread : c.read bounds line = some reply)
    (hnone : c.entered? line = none) (hnext : reply.next = some next) :
    next.interpreter = c.interpreter := by
  rw [entered?] at hnone
  rw [read] at hread
  generalize cutLineEnd (c.pending ++ line) = cut at hread hnone
  obtain ⟨input, lineEnd⟩ := cut
  simp only at hread hnone
  split at hread
  · next hverdict => simp [hverdict] at hnone
  · cases hread
    cases hnext
    rfl
  · cases hread
    cases hnext
    rfl

/-- An input that is complete **is entered**. -/
theorem read_of_entered (bounds : Bounds) (hsome : c.entered? line = some text) :
    ∃ input, String.ofList (Text.trim input.toList) = text ∧
      c.read bounds line = c.enter bounds input := by
  rw [entered?] at hsome
  rw [read]
  generalize cutLineEnd (c.pending ++ line) = cut at hsome ⊢
  obtain ⟨input, lineEnd⟩ := cut
  simp only at hsome ⊢
  split at hsome
  · next hverdict => exact ⟨input, Option.some.inj hsome, by simp only [hverdict]⟩
  · cases hsome

/-- What comes of a run: the console goes on with the interpreter, and a failure **is reported over
the text**. -/
structure Reply.Tells (reply : Reply) (text : String) (r : Except Failure Value)
    (it : Interpreter) : Prop where
  /-- The console goes on. -/
  next : reply.next = some ⟨it.takeOutput.2, ""⟩
  /-- Only a failure is reported. -/
  reported : reply.reported = match r with
    | .ok _ => ""
    | .error f => f.report.draw "REPL" text

/-- A text that is neither empty nor ends the session **gets a reply when its run ends**. -/
theorem exists_reply {r : Except Failure Value} {it : Interpreter}
    (hsome : c.entered? line = some text) (hempty : text ≠ "") (hexit : text.toLower ≠ "exit")
    (hrun : c.interpreter.runSource bounds text = some (r, it)) :
    ∃ reply, c.read bounds line = some reply ∧ reply.Tells text r it := by
  obtain ⟨input, rfl, hinput⟩ := read_of_entered bounds hsome
  rw [hinput]
  simp only [enter, if_neg hempty, if_neg hexit, hrun, Option.map_some]
  refine ⟨_, rfl, ?_⟩
  cases r with
  | ok v => cases v <;> exact ⟨rfl, rfl⟩
  | error f => exact ⟨rfl, by simp only⟩

/-- A text that is entered **is run**, unless it is empty or ends the session. -/
theorem reply_of_entered (hread : c.read bounds line = some reply)
    (hsome : c.entered? line = some text) :
    (reply.reported = "" ∧ ∀ next, reply.next = some next → next.interpreter = c.interpreter) ∨
      ∃ r it, c.interpreter.runSource bounds text = some (r, it) ∧ reply.Tells text r it := by
  obtain ⟨input, htext, hinput⟩ := read_of_entered bounds hsome
  have henter := hinput.symm.trans hread
  rw [enter, htext] at henter
  by_cases hempty : text = ""
  · rw [if_pos hempty] at henter
    cases henter
    refine .inl ⟨rfl, ?_⟩
    rintro next ⟨⟩
    rfl
  by_cases hexit : text.toLower = "exit"
  · rw [if_neg hempty, if_pos hexit] at henter
    cases henter
    exact .inl ⟨rfl, nofun⟩
  rw [if_neg hempty, if_neg hexit] at henter
  obtain ⟨⟨r, it⟩, hrun, -⟩ := Option.map_eq_some_iff.mp henter
  obtain ⟨reply', hread', htells⟩ := exists_reply hsome hempty hexit hrun
  obtain rfl := Option.some.inj (hread'.symm.trans hread)
  exact .inr ⟨r, it, hrun, htells⟩

end Console

/-! ### What lasts from text to text -/

/-- All closures of the interpreter are **of procedures that the texts declare**. -/
def Interpreter.MadeOf (it : Interpreter) (texts : List String) : Prop :=
  it.state.store.From (Program.codeAfter texts ⟨[]⟩)

/-- One more text, **declaring whatever it may**. -/
theorem Interpreter.MadeOf.more {it : Interpreter} {texts : List String} (h : it.MadeOf texts)
    (text : String) : it.MadeOf (texts ++ [text]) := by
  refine h.mono fun b hb => ?_
  obtain ⟨text', htext', hb⟩ := hb.resolve_left Program.not_declares_nil
  exact .inr ⟨text', List.mem_append_left _ htext', hb⟩

/-- **What a text does after others**: the interpreter is then made of it, too, and if it fails, the
failure points into it, or is an error in a body of an earlier text and points into that. -/
theorem Interpreter.MadeOf.runSource {it it' : Interpreter} {bounds : Bounds} {texts : List String}
    {text : String} {r : Except Failure Value} (hst : it.MadeOf texts)
    (h : it.runSource bounds text = some (r, it')) :
    it'.MadeOf (texts ++ [text]) ∧ ∀ f, r = .error f → f.PointsInto text ∨
      ∃ e, f = .runtime e ∧ ∃ earlier ∈ texts, e.InBody earlier ∧ e.PointsInto earlier := by
  rw [Interpreter.runSource] at h
  split at h
  · next e he =>
    cases h
    refine ⟨hst.more text, ?_⟩
    rintro f ⟨⟩
    exact .inl (SourceError.pointsInto he)
  · next p hp =>
    have hst' : it.state.store.From (p.codeAfter texts) :=
      hst.mono fun b hb => .inr (hb.resolve_left Program.not_declares_nil)
    have hp' : ∀ s ∈ p.statements, (p.codeAfter texts).Has (.stmt s) :=
      fun s hs => .inl (.statement hs)
    split at h
    · next v it'' hv =>
      cases h
      refine ⟨(Interpreter.run_runs hst' hp' hv).1.mono fun b hb => .inr (.of_body hp hb), ?_⟩
      rintro f ⟨⟩
    · next e it'' he =>
      cases h
      obtain ⟨hstore, herror⟩ := Interpreter.run_runs hst' hp' he
      refine ⟨hstore.mono fun b hb => .inr (.of_body hp hb), ?_⟩
      rintro f ⟨⟩
      exact ((herror e rfl).pointsInto_or hp).imp_right fun h => ⟨e, rfl, h⟩
    · cases h

namespace Console

/-- **The interpreter is made of the texts of the session.** -/
theorem Session.madeOf {bounds : Bounds} {texts : List String} {c : Console}
    (h : Session bounds texts c) : c.interpreter.MadeOf texts := by
  induction h with
  | new => exact Interpreter.from_new _ _
  | @line texts c line reply next h hread hnext ih =>
    cases hentered : c.entered? line with
    | none =>
      rw [interpreter_of_waiting hread hentered hnext]
      rwa [Option.toList_none, List.append_nil]
    | some text =>
      rw [Option.toList_some]
      rcases reply_of_entered hread hentered with ⟨-, hsame⟩ | ⟨r, it, hrun, htells⟩
      · rw [hsame next hnext]
        exact ih.more text
      · obtain rfl := Option.some.inj (htells.next.symm.trans hnext)
        exact (ih.runSource hrun).1

/-- **Reports at the console.** In a session where texts have been entered, let the next line
complete a text, and let something be reported about it. Then running the text failed, and the
failure is what is reported over the text. Its span, where it has one, cuts a text out of it, and
points at the construct that failed; or the failure is an error in the body of a procedure that an
earlier text declared, and the span cuts a text out of that one. -/
theorem report_points {bounds : Bounds} {texts : List String} {c : Console} {line text : String}
    {reply : Reply} (h : Session bounds texts c) (hread : c.read bounds line = some reply)
    (hentered : c.entered? line = some text) (hreported : reply.reported ≠ "") :
    ∃ f it, c.interpreter.runSource bounds text = some (.error f, it) ∧
      reply.reported = f.report.draw "REPL" text ∧
      (f.PointsInto text ∨ ∃ e, f = .runtime e ∧
        ∃ earlier ∈ texts, e.InBody earlier ∧ e.PointsInto earlier) := by
  rcases reply_of_entered hread hentered with ⟨hnothing, -⟩ | ⟨r, it, hrun, htells⟩
  · exact absurd hnothing hreported
  · cases r with
    | ok v => exact absurd htells.reported hreported
    | error f => exact ⟨f, it, hrun, htells.reported, (h.madeOf.runSource hrun).2 f rfl⟩

/-- A session in which a procedure is declared with an unknown name in its body, and then called. -/
theorem exists_session_unknownName :
    ∃ c reply it, Session ⟨1, 1⟩ ["function f() { g }"] c ∧
      c.read ⟨1, 1⟩ "f()\n" = some reply ∧ c.entered? "f()\n" = some "f()" ∧
      c.interpreter.runSource ⟨1, 1⟩ "f()" =
        some (.error (.runtime (.unknownName "g" ⟨15, 16⟩)), it) ∧
      reply.Tells "f()" (.error (.runtime (.unknownName "g" ⟨15, 16⟩))) it := by
  obtain ⟨declared, hdeclared, rfl⟩ : ∃ tokens,
      Scanned 0 ['f', 'u', 'n', 'c', 't', 'i', 'o', 'n', ' ', 'f', '(', ')', ' ', '\x7b', ' ', 'g',
        ' ', '\x7d'] tokens ∧
      tokens = [⟨.keyword .function, ⟨0, 8⟩⟩, ⟨.identifier "f", ⟨9, 10⟩⟩,
        ⟨.mark .leftParen, ⟨10, 11⟩⟩, ⟨.mark .rightParen, ⟨11, 12⟩⟩, ⟨.mark .leftBrace, ⟨13, 14⟩⟩,
        ⟨.identifier "g", ⟨15, 16⟩⟩, ⟨.mark .rightBrace, ⟨17, 18⟩⟩, ⟨.endOfInput, ⟨18, 18⟩⟩] :=
    ⟨_, .token rfl <| .blank rfl <| .token rfl <| .token rfl <| .token rfl <| .blank rfl <|
      .token rfl <| .blank rfl <| .token rfl <| .blank rfl <| .token rfl .nil, rfl⟩
  obtain ⟨called, hcalled, rfl⟩ : ∃ tokens, Scanned 0 ['f', '(', ')'] tokens ∧
      tokens = [⟨.identifier "f", ⟨0, 1⟩⟩, ⟨.mark .leftParen, ⟨1, 2⟩⟩,
        ⟨.mark .rightParen, ⟨2, 3⟩⟩, ⟨.endOfInput, ⟨3, 3⟩⟩] :=
    ⟨_, .token rfl <| .token rfl <| .token rfl .nil, rfl⟩
  have hdeclared : tokenize "function f() { g }" = _ := tokenize_ofList_eq_ok_iff.mpr hdeclared
  have hcalled : tokenize "f()" = _ := tokenize_ofList_eq_ok_iff.mpr hcalled
  obtain ⟨v, it, it', hfirst, hsecond⟩ : ∃ v it it',
      (Interpreter.new {}).runSource ⟨1, 1⟩ "function f() { g }" = some (.ok v, it) ∧
      it.takeOutput.2.runSource ⟨1, 1⟩ "f()" =
        some (.error (.runtime (.unknownName "g" ⟨15, 16⟩)), it') := by
    refine ⟨?_, ?_, ?_, ?_, ?_⟩
    rotate_left 3
    · rw [Interpreter.runSource, Program.ofSource, hdeclared]
      rfl
    · rw [Interpreter.runSource, Program.ofSource, hcalled]
      rfl
  have hentered : new.entered? "function f() { g }\n" = some "function f() { g }" := by rfl
  have hentered' : new.entered? "f()\n" = some "f()" := by rfl
  obtain ⟨reply, hread, htells⟩ :=
    exists_reply hentered (by decide) (by decide +kernel) hfirst
  obtain ⟨reply', hread', htells'⟩ :=
    exists_reply (c := ⟨it.takeOutput.2, ""⟩) hentered' (by decide) (by decide +kernel) hsecond
  have hsession := Session.new.line hread htells.next
  rw [hentered] at hsession
  exact ⟨_, reply', it', hsession, hread', hentered', hsecond, htells'⟩

/-- The call of the procedure is reported, with a span that is in the text of the declaration. -/
theorem report_points_unknownName :
    ∃ c reply, Session ⟨1, 1⟩ ["function f() { g }"] c ∧
      c.read ⟨1, 1⟩ "f()\n" = some reply ∧ c.entered? "f()\n" = some "f()" ∧
      reply.reported ≠ "" ∧
      ∃ f it, c.interpreter.runSource ⟨1, 1⟩ "f()" = some (.error f, it) ∧
        reply.reported = f.report.draw "REPL" "f()" ∧
        (f.PointsInto "f()" ∨ ∃ e, f = .runtime e ∧
          ∃ earlier ∈ ["function f() { g }"], e.InBody earlier ∧ e.PointsInto earlier) := by
  obtain ⟨c, reply, it, hsession, hread, hentered, hrun, htells⟩ := exists_session_unknownName
  have hreported : reply.reported ≠ "" := by
    rw [htells.reported]
    exact Report.draw_ne_empty (RuntimeError.unknownName "g" ⟨15, 16⟩).report "REPL" "f()"
  exact ⟨c, reply, hsession, hread, hentered, hreported,
    report_points hsession hread hentered hreported⟩

/-- **The span of an error can lie outside the text that it is reported over**: here the text has
three bytes, and the report is about the sixteenth. -/
theorem report_outside :
    ∃ c reply it, Session ⟨1, 1⟩ ["function f() { g }"] c ∧
      c.read ⟨1, 1⟩ "f()\n" = some reply ∧ c.entered? "f()\n" = some "f()" ∧
      c.interpreter.runSource ⟨1, 1⟩ "f()" =
        some (.error (.runtime (.unknownName "g" ⟨15, 16⟩)), it) ∧
      reply.reported = (RuntimeError.unknownName "g" ⟨15, 16⟩).report.draw "REPL" "f()" ∧
      ¬ ∃ text, Span.Cuts ⟨15, 16⟩ "f()" text := by
  obtain ⟨c, reply, it, hsession, hread, hentered, hrun, htells⟩ := exists_session_unknownName
  refine ⟨c, reply, it, hsession, hread, hentered, hrun, htells.reported, ?_⟩
  rintro ⟨text, hcuts⟩
  exact absurd hcuts.stop_le (by decide)

end Console

end ScopeScript
