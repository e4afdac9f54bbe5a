import ScopeScript.Proofs.DeepNesting
import ScopeScript.Proofs.Nodes

/-!
# Levels of nesting

The limit on nesting is meant for **blocks, parentheses, argument lists and unary operators**: how
many of these a token lies inside of. `ScopeScript.Nested n phrase ts rest` is the grammar with such
levels. The parser also takes a level for the expression of a statement, which is none of these, and
for an empty block, which no token lies inside of. So what it accepts is between two bounds that are
one level apart (`ScopeScript.parse_of_nested`): tokens inside of fewer levels than the limit are a
program, and with a token inside of more levels than the limit they are not. With tokens inside of
just as many levels as the limit they need not be a program (`ScopeScript.parse_limit_minus`).

That every list of tokens that the plain grammar accepts can be read with enough levels is due to
`ScopeScript.Parser.statement_deepens`: a reader that fails for nesting has taken a token for each
level.
-/

namespace ScopeScript

open ScopeScript.Parser (NextIs AtEnd)

/-! ### Levels as they are meant -/

/-- **Statements with the levels of nesting that are meant**: with `n` levels left, the tokens of
the first list before those of the second spell the phrase. A block takes a level for what is in it.
The expression of a statement takes none; in it, parentheses, argument lists and unary operators
take one each, again for what is in them. -/
inductive Nested : Nat → Phrase → List Token → List Token → Prop
  /-- An expression of a statement goes on as long as it can. -/
  | expression {n e ts rest} (h : Derives n (.level 0 e) ts rest) (hrest : Complete rest) :
    Nested n (.expression e) ts rest
  /-- A declaration of a variable. -/
  | declare {n name word span rest} :
    Nested n (.bare (.declare name none (word.merge span)))
      (⟨.keyword .declare, word⟩ :: ⟨.identifier name, span⟩ :: rest) rest
  /-- A declaration with a first value. -/
  | declareAs {n name e word span sign ts rest} (h : Nested n (.expression e) ts rest) :
    Nested n (.bare (.declare name (some e) (word.merge e.span)))
      (⟨.keyword .declare, word⟩ :: ⟨.identifier name, span⟩ :: ⟨.mark .assign, sign⟩ :: ts) rest
  /-- A print statement. -/
  | print {n e word ts rest} (h : Nested n (.expression e) ts rest) :
    Nested n (.bare (.print e (word.merge e.span))) (⟨.keyword .print, word⟩ :: ts) rest
  /-- A conditional with one branch. -/
  | conditional {n test b word ts mid rest} (htest : Nested n (.expression test) ts mid)
    (hb : Nested n (.block b) mid rest) :
    Nested n (.bare (.conditional test b none (word.merge b.span))) (⟨.keyword .ifK, word⟩ :: ts)
      rest
  /-- A conditional with two branches. -/
  | alternative {n test b c word span ts mid mid' rest}
    (htest : Nested n (.expression test) ts mid)
    (hb : Nested n (.block b) mid (⟨.keyword .elseK, span⟩ :: mid'))
    (hc : Nested n (.block c) mid' rest) :
    Nested n (.bare (.conditional test b (some c) (word.merge c.span)))
      (⟨.keyword .ifK, word⟩ :: ts) rest
  /-- A loop. -/
  | loop {n test b word ts mid rest} (htest : Nested n (.expression test) ts mid)
    (hb : Nested n (.block b) mid rest) :
    Nested n (.bare (.loop test b (word.merge b.span))) (⟨.keyword .whileK, word⟩ :: ts) rest
  /-- A declaration of a procedure. -/
  | function {n name params b word span opening closing ts mid rest}
    (hparams : Derives n (.parameters params) ts (⟨.mark .rightParen, closing⟩ :: mid))
    (hb : Nested n (.block b) mid rest) :
    Nested n (.bare (.function name params b (word.merge b.span)))
      (⟨.keyword .function, word⟩ :: ⟨.identifier name, span⟩ :: ⟨.mark .leftParen, opening⟩ :: ts)
      rest
  /-- A return statement. -/
  | exit {n e word ts rest} (h : Nested n (.expression e) ts rest) :
    Nested n (.bare (.exit e (word.merge e.span))) (⟨.keyword .returnK, word⟩ :: ts) rest
  /-- A block by itself. -/
  | blockAlone {n b ts rest} (h : Nested n (.block b) ts rest) :
    Nested n (.bare (.block b)) ts rest
  /-- An expression by itself. -/
  | expressionAlone {n e ts rest} (h : Nested n (.expression e) ts rest)
    (hprint : ¬ NextIs (.keyword .print) ts) : Nested n (.bare (.expression e)) ts rest
  /-- A statement without a semicolon. -/
  | plain {n s ts rest} (h : Nested n (.bare s) ts rest) : Nested n (.statement s) ts rest
  /-- A statement with a semicolon. -/
  | terminated {n s span ts rest} (h : Nested n (.bare s) ts (⟨.mark .semicolon, span⟩ :: rest)) :
    Nested n (.statement s) ts rest
  /-- A block takes a level. -/
  | block {n ss opening closing ts rest}
    (h : Nested n (.statements ss) ts (⟨.mark .rightBrace, closing⟩ :: rest)) :
    Nested (n + 1) (.block (.mk ss (opening.merge closing))) (⟨.mark .leftBrace, opening⟩ :: ts)
      rest
  /-- An empty block takes none, as there is no token in it. -/
  | emptyBlock {n opening closing rest} :
    Nested n (.block (.mk [] (opening.merge closing)))
      (⟨.mark .leftBrace, opening⟩ :: ⟨.mark .rightBrace, closing⟩ :: rest) rest
  /-- No statements. -/
  | noStatements {n ts} : Nested n (.statements []) ts ts
  /-- One statement after another. -/
  | moreStatements {n s ss ts mid rest} (hs : Nested n (.statement s) ts mid)
    (hss : Nested n (.statements ss) mid rest) : Nested n (.statements (s :: ss)) ts rest

/-- **No token lies inside of more levels** than so many: the tokens are statements with such levels
of nesting, up to the end of the input. -/
def Within (n : Nat) (body : List Token) : Prop :=
  ∃ ss span, Nested n (.statements ss) (body ++ [⟨.endOfInput, span⟩]) [⟨.endOfInput, span⟩]

/-! ### Levels as they are taken -/

section Levels

variable {n : Nat} {φ : Phrase} {ts rest : List Token}

/-- More room does no harm. -/
theorem Derives.more (h : Derives n φ ts rest) {m : Nat} (hle : n ≤ m) : Derives m φ ts rest := by
  obtain ⟨taken, rfl, hmoved⟩ := h.movable
  exact hmoved m rest hle id

/-- The parser needs **one level more** than is meant, for the expressions of statements and for
empty blocks. -/
theorem Nested.derives (h : Nested n φ ts rest) : Derives (n + 1) φ ts rest := by
  induction h with
  | expression h hrest => exact .expression h hrest
  | declare => exact .declare
  | declareAs _ ih => exact .declareAs ih
  | print _ ih => exact .print ih
  | conditional _ _ iht ihb => exact .conditional iht ihb
  | alternative _ _ _ iht ihb ihc => exact .alternative iht ihb ihc
  | loop _ _ iht ihb => exact .loop iht ihb
  | function hparams _ ihb => exact .function (hparams.more (Nat.le_succ _)) ihb
  | exit _ ih => exact .exit ih
  | blockAlone _ ih => exact .blockAlone ih
  | expressionAlone _ hprint ih => exact .expressionAlone ih hprint
  | plain _ ih => exact .plain ih
  | terminated _ ih => exact .terminated ih
  | block _ ih => exact .block ih
  | emptyBlock => exact .block .noStatements
  | noStatements => exact .noStatements
  | moreStatements _ _ ih ihs => exact .moreStatements ih ihs

/-- A phrase that a statement **is made of**, down to its expressions. -/
def Phrase.ofStatement : Phrase → Prop
  | expression _ | bare _ | block _ | statement _ | statements _ => True
  | _ => False

/-- The parser **never needs fewer levels** than are meant. -/
theorem Derives.nested (h : Derives n φ ts rest) (hφ : φ.ofStatement) : Nested n φ ts rest := by
  induction h with
  | expression h hrest => exact .expression (h.more (Nat.le_succ _)) hrest
  | declare => exact .declare
  | declareAs _ ih => exact .declareAs (ih trivial)
  | print _ ih => exact .print (ih trivial)
  | conditional _ _ iht ihb => exact .conditional (iht trivial) (ihb trivial)
  | alternative _ _ _ iht ihb ihc => exact .alternative (iht trivial) (ihb trivial) (ihc trivial)
  | loop _ _ iht ihb => exact .loop (iht trivial) (ihb trivial)
  | function hparams _ _ ihb => exact .function hparams (ihb trivial)
  | exit _ ih => exact .exit (ih trivial)
  | blockAlone _ ih => exact .blockAlone (ih trivial)
  | expressionAlone _ hprint ih => exact .expressionAlone (ih trivial) hprint
  | plain _ ih => exact .plain (ih trivial)
  | terminated _ ih => exact .terminated (ih trivial)
  | block _ ih => exact .block (ih trivial)
  | noStatements => exact .noStatements
  | moreStatements _ _ ih ihs => exact .moreStatements (ih trivial) (ihs trivial)
  | _ => exact hφ.elim

end Levels

/-! ### What is accepted is read, or nested too deeply -/

section Accepted

variable {body : List Token} {span : Span}

/-- Tokens that the grammar accepts are **judged complete**. -/
theorem Accepted.judge_eq (h : Accepted body) (hbody : ∀ t ∈ body, t.kind ≠ .endOfInput) :
    Goal.judge [.program] (body ++ [⟨.endOfInput, span⟩]) = .complete := by
  cases hjudge : Goal.judge [.program] (body ++ [⟨.endOfInput, span⟩]) with
  | complete => rfl
  | cutShort =>
    obtain ⟨left, hall, hend⟩ := Goal.of_judge_cutShort hbody hjudge
    exact absurd h (Goal.not_generates_of_mayEnd hall hend)
  | misplaced found =>
    obtain ⟨before, after, left, rfl, hall, hnone⟩ := Goal.of_judge_misplaced hbody hjudge
    rw [Accepted, List.map_append, List.map_cons] at h
    exact absurd h (Goal.not_generates_of_advance hall hnone _)

/-- **What the grammar accepts is read, or is nested too deeply.** -/
theorem Accepted.statementsToEnd_eq (h : Accepted body)
    (hbody : ∀ t ∈ body, t.kind ≠ .endOfInput) (n : Nat) (span : Span) :
    ∃ rest, (∃ ss, Parser.statementsToEnd (Parser.statement n) (body.length + 1)
        (body ++ [⟨.endOfInput, span⟩]) = (.ok ss, rest)) ∨
      ∃ place, Parser.statementsToEnd (Parser.statement n) (body.length + 1)
        (body ++ [⟨.endOfInput, span⟩]) = (.error (.nestedTooDeep place), rest) := by
  have hstatement : Parser.FollowsStatement (Parser.statement n) := fun _ _ hg hbegun =>
    Parser.statementOf_follows (Parser.expression_follows n) (Parser.block_follows n) hg hbegun
  have hfollows := Parser.statementsToEnd_follows hstatement (body.length + 1)
    (body ++ [⟨.endOfInput, span⟩]) []
  rw [List.append_nil, h.judge_eq hbody] at hfollows
  rcases hr : Parser.statementsToEnd (Parser.statement n) (body.length + 1)
    (body ++ [⟨.endOfInput, span⟩]) with ⟨r, rest⟩
  rw [hr] at hfollows
  cases hfollows with
  | @ok ss => exact ⟨rest, .inl ⟨ss, hr⟩⟩
  | @tooDeep place => exact ⟨rest, .inr ⟨place, hr⟩⟩
  | misplaced heq | cutShort heq => cases heq

/-- What the grammar accepts **can be read with enough levels**. -/
theorem Accepted.exists_within (h : Accepted body) (hbody : ∀ t ∈ body, t.kind ≠ .endOfInput) :
    ∃ n, Within n body := by
  refine ⟨body.length + 2, ?_⟩
  obtain ⟨rest, ⟨ss, hread⟩ | ⟨place, hread⟩⟩ :=
    h.statementsToEnd_eq hbody (body.length + 2) .none
  · obtain ⟨hderives, hend⟩ := Parser.statementsToEnd_sound
      (Parser.statement_sound (body.length + 2)) _ (by simp) hread
    rw [hderives.takes.eq_of_atEnd hbody hend] at hderives
    exact ⟨ss, .none, hderives.nested trivial⟩
  · -- a token was taken for each level, and there are not so many
    obtain ⟨⟨taken, heq, hle, htaken⟩, -⟩ :=
      Parser.statementsToEnd_deepens (Parser.statement_deepens (body.length + 2))
        (Parser.statement_sound (body.length + 2)) (body.length + 1) _ _ hread
    have hlength := congrArg List.length heq
    simp only [List.length_append, List.length_cons, List.length_nil] at hlength
    obtain rfl : rest = [] := List.eq_nil_of_length_eq_zero (by omega)
    rw [List.append_nil] at heq
    exact absurd rfl (htaken ⟨.endOfInput, .none⟩ (heq ▸ List.mem_append_right body (by simp)))

/-- What the grammar accepts is parsed, or is nested too deeply **for the parser**. -/
theorem Accepted.parse_eq (h : Accepted body) (hbody : ∀ t ∈ body, t.kind ≠ .endOfInput) :
    (∃ p, parse (body ++ [⟨.endOfInput, span⟩]) = .ok p) ∨
      ∃ place, parse (body ++ [⟨.endOfInput, span⟩]) = .error (.nestedTooDeep place) := by
  have hturns : (body ++ [(⟨.endOfInput, span⟩ : Token)]).length = body.length + 1 := by simp
  obtain ⟨rest, ⟨ss, hread⟩ | ⟨place, hread⟩⟩ := h.statementsToEnd_eq hbody nestingLimit span
  all_goals rw [← hturns] at hread
  · have hprogram : Parser.program (body ++ [⟨.endOfInput, span⟩]) = (.ok ⟨ss⟩, rest) :=
      Parser.bind_apply_of_ok hread _
    exact .inl ⟨⟨ss⟩, by rw [parse, hprogram]⟩
  · have hprogram : Parser.program (body ++ [⟨.endOfInput, span⟩]) =
        (.error (.nestedTooDeep place), rest) := Parser.bind_apply_of_error hread _
    exact .inr ⟨place, by rw [parse, hprogram]⟩

/-- What can be read with so many levels **is accepted**. -/
theorem Within.accepted {n : Nat} (h : Within n body) : Accepted body := by
  obtain ⟨ss, span, h⟩ := h
  exact .of_derives h.derives

/-- With a level to spare for expressions, **the parser has levels enough**. -/
theorem Within.parse_eq (h : Within (nestingLimit - 1) body) :
    ∃ p, parse (body ++ [⟨.endOfInput, span⟩]) = .ok p := by
  obtain ⟨ss, span', h⟩ := h
  obtain ⟨taken, heq, hmoved⟩ := h.derives.movable
  rw [← List.append_cancel_right heq] at hmoved
  have hderives := hmoved nestingLimit [⟨.endOfInput, span⟩] (Nat.le_refl _) fun _ => .atEnd
  exact ⟨⟨ss⟩, Program.Spelled.parse_eq ⟨span, hderives⟩⟩

/-- What the parser accepts **lies within the limit**. -/
theorem Within.of_parse {p : Program} (hbody : ∀ t ∈ body, t.kind ≠ .endOfInput)
    (h : parse (body ++ [⟨.endOfInput, span⟩]) = .ok p) : Within nestingLimit body := by
  obtain ⟨span', hspelled⟩ := Program.spelled_of_parse hbody h
  rw [hspelled.takes.eq_of_atEnd hbody fun t ht => by rw [← Option.some.inj ht]] at hspelled
  exact ⟨p.statements, span, hspelled.nested trivial⟩

end Accepted

/-- **The limit on nesting, up to one level.** Let the grammar accept the tokens, of which only the
last is the end of the input. Some number of levels is enough to read them. If no token lies inside
of as many blocks, parentheses, argument lists and unary operators as the limit, then the parser
makes a program of them; if a token lies inside of more than the limit, then the parser finds them
nested too deeply. It has no other error for them. -/
theorem parse_of_nested (body : List Token) (last : Token) (hlast : last.kind = .endOfInput)
    (hbody : ∀ t ∈ body, t.kind ≠ .endOfInput) (haccepted : Accepted body) :
    (∃ n, Within n body) ∧
      (Within (nestingLimit - 1) body → ∃ p, parse (body ++ [last]) = .ok p) ∧
      (¬ Within nestingLimit body →
        ∃ place, parse (body ++ [last]) = .error (.nestedTooDeep place)) ∧
      ((∃ p, parse (body ++ [last]) = .ok p) ∨
        ∃ place, parse (body ++ [last]) = .error (.nestedTooDeep place)) := by
  obtain ⟨kind, span⟩ := last
  obtain rfl : kind = .endOfInput := hlast
  refine ⟨haccepted.exists_within hbody, Within.parse_eq, fun hnot => ?_, haccepted.parse_eq hbody⟩
  rcases haccepted.parse_eq hbody with ⟨p, hp⟩ | hplace
  · exact absurd (.of_parse hbody hp) hnot
  · exact hplace

/-! ### Signs before a name -/

section Signs

variable {signs : List Token} {n : Nat}

/-- Signs before a name take **a level each**. -/
theorem exists_derives_signs (h : ∀ t ∈ signs, t.kind = .operator .minus) (span : Span)
    (rest : List Token) :
    ∃ e, Derives signs.length (.unary e) (signs ++ ⟨.identifier "x", span⟩ :: rest) rest := by
  induction signs with
  | nil => exact ⟨_, .unsigned (.callee (.name (by decide) (by decide)))⟩
  | cons t signs ih =>
    obtain ⟨ht, hsigns⟩ := List.forall_mem_cons.mp h
    obtain ⟨e, he⟩ := ih hsigns
    obtain ⟨kind, place⟩ := t
    obtain rfl : kind = .operator .minus := ht
    exact ⟨_, .signed rfl he⟩

/-- The name lies inside of **all the signs**, and inside of nothing else. -/
theorem within_signs (h : ∀ t ∈ signs, t.kind = .operator .minus) (hn : signs.length ≤ n)
    (span : Span) : Within n (signs ++ [⟨.identifier "x", span⟩]) := by
  obtain ⟨e, he⟩ := exists_derives_signs h span [⟨.endOfInput, .none⟩]
  have hprint : ¬ NextIs (.keyword .print)
      (signs ++ ⟨.identifier "x", span⟩ :: [⟨.endOfInput, .none⟩]) := by
    rintro ⟨place, rest, heq⟩
    cases signs with
    | nil => cases heq
    | cons t signs =>
      have hkind := h t (List.mem_cons_self ..)
      rw [(List.cons.inj heq).1] at hkind
      cases hkind
  have hlevel := (Derives.tightest (he.more hn)).loosest (Nat.le_refl _)
  have hexpression := Nested.expression hlevel .atEnd
  refine ⟨[.expression e], .none, ?_⟩
  rw [List.append_assoc]
  exact .moreStatements (.plain (.expressionAlone hexpression hprint)) .noStatements

end Signs

/-- A sign before a name is well within the limit. -/
theorem parse_of_nested_minus :
    Accepted [⟨.operator .minus, ⟨0, 1⟩⟩, ⟨.identifier "x", ⟨1, 2⟩⟩] ∧
      ∃ p, parse [⟨.operator .minus, ⟨0, 1⟩⟩, ⟨.identifier "x", ⟨1, 2⟩⟩, ⟨.endOfInput, ⟨2, 2⟩⟩] =
        .ok p := by
  have hsigns : ∀ t ∈ [(⟨.operator .minus, ⟨0, 1⟩⟩ : Token)], t.kind = .operator .minus := by decide
  have hwithin : Within (nestingLimit - 1)
      [⟨.operator .minus, ⟨0, 1⟩⟩, ⟨.identifier "x", ⟨1, 2⟩⟩] :=
    within_signs hsigns (by decide) ⟨1, 2⟩
  exact ⟨hwithin.accepted, (parse_of_nested _ ⟨.endOfInput, ⟨2, 2⟩⟩ rfl (by decide)
    hwithin.accepted).2.1 hwithin⟩

/-- As many signs before a name as the limit has levels. -/
def limitMinus : List Token :=
  (List.range nestingLimit).map (fun i => ⟨.operator .minus, ⟨i, i + 1⟩⟩) ++
    [⟨.identifier "x", ⟨nestingLimit, nestingLimit + 1⟩⟩]

/-- **At the limit itself the parser gives up**: a name behind as many signs as there are levels
lies inside of no more than these, and is nested too deeply, since its expression takes a level
too. -/
theorem parse_limit_minus :
    Accepted limitMinus ∧ Within nestingLimit limitMinus ∧
      parse (limitMinus ++ [⟨.endOfInput, ⟨nestingLimit + 1, nestingLimit + 1⟩⟩]) =
        .error (.nestedTooDeep ⟨nestingLimit, nestingLimit + 1⟩) := by
  have hsigns : ∀ t ∈ (List.range nestingLimit).map
      (fun i => (⟨.operator .minus, ⟨i, i + 1⟩⟩ : Token)), t.kind = .operator .minus := by
    simp
  have hwithin : Within nestingLimit limitMinus := within_signs hsigns (by simp) _
  refine ⟨hwithin.accepted, hwithin, ?_⟩
  set_option maxRecDepth 10000 in rfl

end ScopeScript
