import ScopeScript.Proofs.DeepNesting
import ScopeScript.Proofs.FirstError
import ScopeScript.Proofs.MaximalMunch
import ScopeScript.Proofs.Origins
import ScopeScript.Report

/-!
# The span of an error

**The span of an error points at the construct that failed** (`ScopeScript.runSource_error_points`).
It cuts a text out of the source, between characters. For an error in the grammar it is the span of
a token of the source; for an error of the run its text alone is an expression, and one that the
error is about, also when it stands in the body of a procedure and was run by way of closures.

For errors of the run three facts meet: the error is raised by an expression of the program
(`ScopeScript.Interpreter.run_runs`), the text of this expression gives it back
(`ScopeScript.Node.ReadsBack`), and what an error is about does not change when spans are moved.
-/

namespace ScopeScript

/-! ### Pointing at what failed -/

/-- **The error points into the source**: its span cuts a text out, and all of this text is read as
an expression that the error is about. -/
def RuntimeError.PointsInto (source : String) (e : RuntimeError) : Prop :=
  ∃ text, e.span.Cuts source text ∧ ∃ tokens last ex,
    tokenize text = .ok (tokens ++ [last]) ∧ last.kind = .endOfInput ∧
    Parser.expression nestingLimit (tokens ++ [last]) = (.ok ex, [last]) ∧ e.About ex

/-- **The error of a text that is no program points into it**: its span, if it has one, cuts a text
out, and for an error in the grammar it is the span of a token. -/
def SourceError.PointsInto (source : String) : SourceError → Prop
  | .lexical e => ∃ text, e.span.Cuts source text
  | .grammatical e => ∀ span ∈ e.span?, (∃ text, span.Cuts source text) ∧
      ∃ tokens, tokenize source = .ok tokens ∧ ∃ t ∈ tokens, t.span = span

/-- The failure points into the source. -/
def Failure.PointsInto (text : String) : Failure → Prop
  | source e => e.PointsInto text
  | runtime e => e.PointsInto text

/-! ### Errors of a run -/

/-- What an error is about **does not depend on spans**. -/
theorem RuntimeError.About.of_mapSpan {e : RuntimeError} {ex : Expr} {f : Span → Span}
    (h : e.About (ex.mapSpan f)) : e.About ex := by
  cases ex with
  | literal v span => cases h
  | name id span =>
    cases h
    exact .name
  | binary op l r span =>
    cases h
    exact .binary
  | logical op l r span => cases h
  | unary op ex span =>
    cases h
    exact .unary
  | call g args span =>
    cases h with
    | notCallable => exact .notCallable
    | wrongArgumentCount => exact .wrongArgumentCount
    | tooManyCalls => exact .tooManyCalls

/-- The span of a node of a program **cuts its text out** of the source. -/
theorem Program.Has.exists_text {source : String} {p : Program} {node : Node}
    (hnode : p.Has node) (hp : Program.ofSource source = .ok p) :
    ∃ text, node.span.Cuts source text ∧ node.ReadsBack text := by
  obtain ⟨body, stop, hscanned, hspelled⟩ := Program.exists_scanned hp
  obtain ⟨part, ⟨before, after, rfl⟩, hpart⟩ := hnode.spelled hspelled
  rw [List.append_assoc] at hscanned
  have hconsecutive : Consecutive part :=
    hscanned.consecutive.1.sublist (List.infix_append ..).sublist
  obtain ⟨front, text, back, hsource, hspan, htext⟩ :=
    hscanned.exists_text (by simp) (hpart.covers hconsecutive)
  exact ⟨String.ofList text, hspan ▸ Span.cuts_of_append hsource,
    hpart.readsBack hconsecutive htext⟩

/-- An error that a program raises **points into its source**. -/
theorem RuntimeError.From.pointsInto {source : String} {p : Program} {e : RuntimeError}
    (h : e.From p.code) (hp : Program.ofSource source = .ok p) : e.PointsInto source := by
  obtain ⟨ex, hhas, hspan, habout⟩ := h
  obtain ⟨text, hcuts, tokens, last, read, htokens, hlast, -, hread, hback⟩ :=
    Program.Has.exists_text hhas hp
  obtain ⟨ex', _, hex', ⟨⟩⟩ := Parser.bind_eq_ok.mp hread
  rw [← Node.expr.inj hback] at habout
  exact ⟨text, hspan ▸ hcuts, tokens, last, ex', htokens, hlast, hex', habout.of_mapSpan⟩

/-! ### Errors of a text that is no program -/

/-- The span of a token of a source **cuts a text out** of it; that of the mark of the end cuts out
nothing, at the end. -/
theorem Span.exists_cuts_of_mem {source : String} {tokens : List Token} {t : Token}
    (h : tokenize source = .ok tokens) (ht : t ∈ tokens) : ∃ text, t.span.Cuts source text := by
  rcases (tokensFrom_eq_ok_iff.mp h).exists_cuts_or_eq ht with ⟨text, hcuts, -⟩ | rfl
  · exact ⟨text, hcuts⟩
  · rw [Token.endAt, ← byteLength_toList]
    have hsource : source.toList = source.toList ++ [] ++ [] := by simp
    exact ⟨_, Span.cuts_of_append hsource⟩

/-- The span of an error in the grammar is that **of a token**. -/
theorem ParseError.exists_mem {source : String} {tokens : List Token} {e : ParseError} {span : Span}
    (htokens : tokenize source = .ok tokens) (he : parse tokens = .error e)
    (hspan : span ∈ e.span?) : ∃ t ∈ tokens, t.span = span := by
  obtain ⟨body, stop, rfl, hbody⟩ := (tokensFrom_eq_ok_iff.mp htokens).exists_body
  cases e with
  | misplaced found expected =>
    obtain rfl := Option.some.inj hspan
    obtain ⟨before, after, _, rfl, -⟩ :=
      Goal.of_judge_misplaced hbody (judge_of_parse_misplaced he)
    exact ⟨found, by simp, rfl⟩
  | cutShort expected => cases hspan
  | nestedTooDeep place =>
    obtain rfl := Option.some.inj hspan
    exact mem_of_parse_nestedTooDeep rfl he

/-- The error of a text that is no program **points into it**. -/
theorem SourceError.pointsInto {source : String} {e : SourceError}
    (h : Program.ofSource source = .error e) : e.PointsInto source := by
  rw [Program.ofSource] at h
  split at h
  · next fault htokens =>
    cases h
    exact LexError.exists_cuts htokens
  · next tokens htokens =>
    split at h
    · next fault hfault =>
      cases h
      intro span hspan
      obtain ⟨t, ht, rfl⟩ := ParseError.exists_mem htokens hfault hspan
      exact ⟨Span.exists_cuts_of_mem htokens ht, tokens, htokens, t, ht, rfl⟩
    · cases h

/-! ### Runs -/

/-- **The spans of errors point at the construct that failed.** If a text that is run by itself
fails, the span of the failure, where it has one, cuts a text out of it. For a misplaced token and
for nesting too deep it is the span of a token. For an error of the run, all of the text in the span
is read as an expression that the error is about: the unknown name, the operator that does not fit,
or the call. -/
theorem runSource_error_points {opts : Options} {bounds : Bounds} {source : String} {f : Failure}
    {lines : List String} (h : runSource opts bounds source = some (.error f, lines)) :
    f.PointsInto source := by
  obtain ⟨⟨r, it⟩, hrun, hr⟩ := Option.map_eq_some_iff.mp h
  obtain rfl : r = .error f := congrArg Prod.fst hr
  rw [Interpreter.runSource] at hrun
  split at hrun
  · next e he =>
    cases hrun
    exact SourceError.pointsInto he
  · next p hp =>
    split at hrun
    · cases hrun
    · next e it' he =>
      cases hrun
      exact ((Interpreter.run_runs (Interpreter.from_new p.code opts)
        (fun s hs => Program.Has.statement hs) he).2 e rfl).pointsInto hp
    · cases hrun

/-- A name in the body of a closure that came back from a call: the span has its parentheses in it,
too. -/
theorem runSource_error_points_escapingClosure :
    runSource {} ⟨1, 2⟩ "function f(){function k(){(g)}k}f()()" =
        some (.error (.runtime (.unknownName "g" ⟨26, 29⟩)), []) ∧
      Failure.PointsInto "function f(){function k(){(g)}k}f()()"
        (.runtime (.unknownName "g" ⟨26, 29⟩)) := by
  obtain ⟨tokens, hscanned, rfl⟩ : ∃ tokens,
      Scanned 0 ['f', 'u', 'n', 'c', 't', 'i', 'o', 'n', ' ', 'f', '(', ')', '{', 'f', 'u', 'n',
        'c', 't', 'i', 'o', 'n', ' ', 'k', '(', ')', '{', '(', 'g', ')', '}', 'k', '}', 'f', '(',
        ')', '(', ')'] tokens ∧
      tokens = [⟨.keyword .function, ⟨0, 8⟩⟩, ⟨.identifier "f", ⟨9, 10⟩⟩,
        ⟨.mark .leftParen, ⟨10, 11⟩⟩, ⟨.mark .rightParen, ⟨11, 12⟩⟩, ⟨.mark .leftBrace, ⟨12, 13⟩⟩,
        ⟨.keyword .function, ⟨13, 21⟩⟩, ⟨.identifier "k", ⟨22, 23⟩⟩, ⟨.mark .leftParen, ⟨23, 24⟩⟩,
        ⟨.mark .rightParen, ⟨24, 25⟩⟩, ⟨.mark .leftBrace, ⟨25, 26⟩⟩, ⟨.mark .leftParen, ⟨26, 27⟩⟩,
        ⟨.identifier "g", ⟨27, 28⟩⟩, ⟨.mark .rightParen, ⟨28, 29⟩⟩, ⟨.mark .rightBrace, ⟨29, 30⟩⟩,
        ⟨.identifier "k", ⟨30, 31⟩⟩, ⟨.mark .rightBrace, ⟨31, 32⟩⟩, ⟨.identifier "f", ⟨32, 33⟩⟩,
        ⟨.mark .leftParen, ⟨33, 34⟩⟩, ⟨.mark .rightParen, ⟨34, 35⟩⟩, ⟨.mark .leftParen, ⟨35, 36⟩⟩,
        ⟨.mark .rightParen, ⟨36, 37⟩⟩, ⟨.endOfInput, ⟨37, 37⟩⟩] :=
    ⟨_, .token rfl <| .blank rfl <| .token rfl <| .token rfl <| .token rfl <| .token rfl <|
      .token rfl <| .blank rfl <| .token rfl <| .token rfl <| .token rfl <| .token rfl <|
      .token rfl <| .token rfl <| .token rfl <| .token rfl <| .token rfl <| .token rfl <|
      .token rfl <| .token rfl <| .token rfl <| .token rfl <| .token rfl .nil, rfl⟩
  have htokens : tokenize "function f(){function k(){(g)}k}f()()" = _ :=
    tokenize_ofList_eq_ok_iff.mpr hscanned
  have hrun : runSource {} ⟨1, 2⟩ "function f(){function k(){(g)}k}f()()" =
      some (.error (.runtime (.unknownName "g" ⟨26, 29⟩)), []) := by
    rw [runSource, Interpreter.runSource, Program.ofSource, htokens]
    rfl
  exact ⟨hrun, runSource_error_points hrun⟩

end ScopeScript
