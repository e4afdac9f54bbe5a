import ScopeScript.Proofs.Repetitions

/-!
# The end of the input

A list of tokens ends where a token marks the end of the input, or where there are no more tokens.
**To a parser both are the same end** (`ScopeScript.parse_ends_agree`): it reads the same program,
or comes to the same error, and what stands behind the mark it leaves alone. An error that is about
the end itself is one at both ends; only where it points to, and what would have fitted there, may
depend on whether there is a mark.

So two lists are read side by side that are the same up to their ends. While a reader is not yet at
the end, it does the same with both; at the end, it must find one end where it finds the other
(`ScopeScript.Parser.Alike`). No reader takes a mark and goes on, so that an end stays the end.
That the lists are of different lengths gives their repetitions different numbers of turns, which
does not matter as long as these are enough.
-/

namespace ScopeScript

/-- **No token of the list marks the end** of the input. -/
def Unmarked (ts : List Token) : Prop :=
  ∀ t ∈ ts, t.kind ≠ .endOfInput

/-- **The same error** before one end of the input and before another. An error about the end says
where that is, or what would have fitted there, which is the same if the ends are marked alike. -/
inductive ParseError.SameBefore (stop stop' : List Token) : ParseError → ParseError → Prop
  /-- A token that does not fit. -/
  | misplaced {found : Token} {expected : Expected} :
    SameBefore stop stop' (.misplaced found expected) (.misplaced found expected)
  /-- The input ends too early. -/
  | cutShort {expected expected' : Expected} (h : stop.head? = stop'.head? → expected = expected') :
    SameBefore stop stop' (.cutShort expected) (.cutShort expected')
  /-- Nesting is too deep before the end. -/
  | nestedTooDeep {span : Span} : SameBefore stop stop' (.nestedTooDeep span) (.nestedTooDeep span)
  /-- Nesting is too deep at the end. -/
  | atEnd : SameBefore stop stop' (.nestedTooDeep ((stop.head?.map Token.span).getD .none))
      (.nestedTooDeep ((stop'.head?.map Token.span).getD .none))

namespace ParseError.SameBefore

variable {stop stop' : List Token} {e e' : ParseError}

protected theorem refl (e : ParseError) : e.SameBefore stop stop' e := by
  cases e with
  | misplaced => exact .misplaced
  | cutShort => exact .cutShort fun _ => rfl
  | nestedTooDeep => exact .nestedTooDeep

/-- Before ends **that are marked alike**, the errors are no different. -/
theorem eq (h : e.SameBefore stop stop' e') (hhead : stop.head? = stop'.head?) : e = e' := by
  cases h with
  | misplaced | nestedTooDeep => rfl
  | cutShort h => rw [h hhead]
  | atEnd => rw [hhead]

end ParseError.SameBefore

namespace Parser

variable {α β σ : Type}

/-! ### Readers before the end -/

/-- **The same outcome** before one end of the input and before another: the ends are left, and
before them the same tokens, or else an error has taken their marks. -/
inductive SameBefore (stop stop' : List Token) :
    Except ParseError α × List Token → Except ParseError α × List Token → Prop
  /-- The same result. -/
  | ok {a : α} {left : List Token} (h : Unmarked left) :
    SameBefore stop stop' (.ok a, left ++ stop) (.ok a, left ++ stop')
  /-- The same error, and the ends are left. -/
  | error {e e' : ParseError} (left : List Token) (h : e.SameBefore stop stop' e') :
    SameBefore stop stop' (.error e, left ++ stop) (.error e', left ++ stop')
  /-- The input ends too early, and the marks are taken. -/
  | taken {expected expected' : Expected} (h : stop.head? = stop'.head? → expected = expected') :
    SameBefore stop stop' (.error (.cutShort expected), stop.drop 1)
      (.error (.cutShort expected'), stop'.drop 1)

/-- **The reader tells no end of the input from another.** -/
def Alike (p : Parser α) : Prop :=
  ∀ stop stop', AtEnd stop → AtEnd stop' → ∀ ts, Unmarked ts →
    SameBefore stop stop' (p (ts ++ stop)) (p (ts ++ stop'))

/-- The reader tells no end of the input from another **where a token comes before**. -/
def AlikeBefore (p : Parser α) : Prop :=
  ∀ stop stop', AtEnd stop → AtEnd stop' → ∀ t ts, Unmarked ts → t.kind ≠ .endOfInput →
    SameBefore stop stop' (p (t :: ts ++ stop)) (p (t :: ts ++ stop'))

theorem AtEnd.head?_kind {stop : List Token} (h : AtEnd stop) :
    stop.head?.map Token.kind = none ∨ stop.head?.map Token.kind = some .endOfInput := by
  cases stop with
  | nil => exact .inl rfl
  | cons mark _ => exact .inr (congrArg some (h mark rfl))

namespace Alike

variable {p q : Parser α} {f : α → Parser β}

protected theorem pure (a : α) : Alike (pure a) :=
  fun _ _ _ _ _ hts => .ok hts

theorem fail (e : ParseError) : Alike (fail e : Parser α) :=
  fun _ _ _ _ ts _ => .error ts (.refl e)

/-- One reader **after the other**. -/
theorem bind (hp : Alike p) (hf : ∀ a, Alike (f a)) : Alike (p >>= f) := by
  intro stop stop' hstop hstop' ts hts
  have hsame := hp stop stop' hstop hstop' ts hts
  generalize ho : p (ts ++ stop) = o, ho' : p (ts ++ stop') = o' at hsame
  cases hsame with
  | ok hleft =>
    rw [bind_apply_of_ok ho, bind_apply_of_ok ho']
    exact hf _ stop stop' hstop hstop' _ hleft
  | error left he =>
    rw [bind_apply_of_error ho, bind_apply_of_error ho']
    exact .error left he
  | taken h =>
    rw [bind_apply_of_error ho, bind_apply_of_error ho']
    exact .taken h

theorem ite {c : Prop} [Decidable c] (hp : Alike p) (hq : Alike q) :
    Alike (if c then p else q) := by
  split
  · exact hp
  · exact hq

theorem before (hp : Alike p) : AlikeBefore p :=
  fun stop stop' hstop hstop' t ts hts ht =>
    hp stop stop' hstop hstop' (t :: ts) (List.forall_mem_cons.mpr ⟨ht, hts⟩)

/-! ### Single tokens -/

/-- A reader that takes one token **or none** and finds no use for a mark. -/
theorem of_look {p : Parser α} (a : α) (hend : ∀ stop, AtEnd stop → p stop = (.ok a, stop))
    (htoken : ∀ t, ∃ b, (∀ ts, p (t :: ts) = (.ok b, ts)) ∨ ∀ ts, p (t :: ts) = (.ok b, t :: ts)) :
    Alike p := by
  rintro stop stop' hstop hstop' (_ | ⟨t, ts⟩) hts
  · rw [List.nil_append, List.nil_append, hend stop hstop, hend stop' hstop']
    exact .ok hts
  · obtain ⟨b, h | h⟩ := htoken t
    · rw [List.cons_append, List.cons_append, h, h]
      exact .ok (List.forall_mem_cons.mp hts).2
    · rw [List.cons_append, List.cons_append, h, h]
      exact .ok hts

theorem atEnd : Alike atEnd := by
  refine of_look true (fun stop hstop => ?_) fun t => ⟨_, .inr fun _ => rfl⟩
  exact atEnd_eq_ok.mpr ⟨iff_of_true rfl hstop, rfl⟩

/-- A mark is **not accepted** for anything else. -/
theorem accept {kind : Token.Kind} (hkind : kind ≠ .endOfInput) : Alike (accept kind) := by
  refine of_look false (fun stop hstop => accept_of_not_next ?_) fun t => ?_
  · rintro ⟨span, rest, rfl⟩
    exact hkind (hstop _ rfl)
  · by_cases ht : t.kind = kind
    · exact ⟨true, .inl fun _ => if_pos ht⟩
    · exact ⟨false, .inr fun _ => if_neg ht⟩

theorem infixAt (level : Nat) : Alike (infixAt level) := by
  refine of_look none (fun stop hstop => infixAt_eq_none.mpr ⟨?_, rfl⟩) fun t => ?_
  · rintro ⟨t, ht, op, hop, -⟩
    exact Token.Kind.ne_endOfInput_of_infixOp? hop (hstop t ht)
  · cases hop : t.kind.infixOp? with
    | none => exact ⟨none, .inr fun _ => by simp [Parser.infixAt, hop]⟩
    | some op =>
      by_cases hlevel : op.level = level
      · exact ⟨some op, .inl fun _ => by simp [Parser.infixAt, hop, hlevel]⟩
      · exact ⟨none, .inr fun _ => by simp [Parser.infixAt, hop, hlevel]⟩

theorem unaryOperator : Alike unaryOperator := by
  refine of_look none (fun stop hstop => unaryOperator_eq_none.mpr ⟨?_, rfl⟩) fun t => ?_
  · intro t ht
    rw [hstop t ht]
    rfl
  · cases hop : t.kind.unaryOp? with
    | none => exact ⟨none, .inr fun _ => by simp [Parser.unaryOperator, hop]⟩
    | some op => exact ⟨some (op, t.span), .inl fun _ => by simp [Parser.unaryOperator, hop]⟩

/-- No level is left. The error points to the end **only at the end**. -/
theorem tooDeep : Alike (tooDeep : Parser α) := by
  rintro stop stop' - - (_ | ⟨t, ts⟩) -
  · exact .error [] .atEnd
  · exact .error (t :: ts) .nestedTooDeep

/-- What is read **behind a look at the next token**, if a mark is looked at as no token is. -/
theorem peek_bind {f : Option Token.Kind → Parser β} (hmark : f (some .endOfInput) = f none)
    (h : ∀ kind, Alike (f kind)) : Alike (peek >>= f) := by
  have hend : ∀ stop, AtEnd stop → (peek >>= f) stop = f none stop := fun stop hstop => by
    rw [bind_apply_of_ok (peek_eq_ok.mpr ⟨rfl, rfl⟩)]
    rcases hstop.head?_kind with hkind | hkind
    · rw [hkind]
    · rw [hkind, hmark]
  rintro stop stop' hstop hstop' (_ | ⟨t, ts⟩) hts
  · rw [List.nil_append, List.nil_append, hend stop hstop, hend stop' hstop']
    exact h none stop stop' hstop hstop' [] hts
  · exact h (some t.kind) stop stop' hstop hstop' (t :: ts) hts

/-- What is read **behind a token of any kind**, if a mark is the end of it. -/
theorem token_bind {f : Token → Parser β} {expected : Expected} (expected' : Expected)
    (hmark : ∀ t, t.kind = .endOfInput → f t = Parser.fail (.cutShort expected'))
    (h : ∀ t, t.kind ≠ .endOfInput → Alike (f t)) : Alike (token expected >>= f) := by
  have hend : ∀ stop, AtEnd stop → (token expected >>= f) stop =
      (.error (.cutShort (stop.head?.elim expected fun _ => expected')), stop.drop 1) := by
    rintro (_ | ⟨mark, post⟩) hstop
    · rfl
    · rw [bind_apply_of_ok (token_eq_ok.mpr rfl), hmark mark (hstop mark rfl)]
      rfl
  rintro stop stop' hstop hstop' (_ | ⟨t, ts⟩) hts
  · rw [List.nil_append, List.nil_append, hend stop hstop, hend stop' hstop']
    exact .taken fun hhead => by rw [hhead]
  · obtain ⟨ht, hts⟩ := List.forall_mem_cons.mp hts
    exact h t ht stop stop' hstop hstop' ts hts

/-- A mark that does not fit is **the end of the input**. -/
theorem mismatch_mark {t : Token} (ht : t.kind = .endOfInput) (expected : Expected) :
    mismatch t expected = .cutShort expected :=
  if_pos ht

theorem expect {kind : Token.Kind} (hkind : kind ≠ .endOfInput) (expected : Expected) :
    Alike (expect kind expected) := by
  refine token_bind expected (fun t ht => ?_) fun t _ => .ite (.pure _) (fail _)
  rw [if_neg fun h => hkind (h.symm.trans ht), mismatch_mark ht]

theorem identifier (expected : Expected) : Alike (identifier expected) := by
  refine token_bind expected (fun t ht => ?_) fun t _ => ?_
  · rw [ht, mismatch_mark ht]
  · split
    · exact .pure _
    · exact fail _

/-! ### Repetitions -/

/-- **Different numbers of turns** are as good as the same number, if both are enough. -/
theorem turns {turn : Turn σ α} {r : Nat → σ → Parser α} (hr : Bounds turn r) (s : σ)
    (h : ∀ n, Alike (r n s)) : Alike (turns fun n => r n s) := by
  intro stop stop' hstop hstop' ts hts
  have hsame := h ((ts ++ stop).length + (ts ++ stop').length) stop stop' hstop hstop' ts hts
  rwa [hr.apply_eq_turns (Nat.le_add_right _ _), hr.apply_eq_turns (Nat.le_add_left _ _)] at hsame

theorem commaSeparated (hp : Alike p) : ∀ n, Alike (commaSeparated p n)
  | 0 => hp.bind fun _ => .pure _
  | n + 1 => hp.bind fun _ => (accept (by decide)).bind fun _ =>
    .ite ((commaSeparated hp n).bind fun _ => .pure _) (.pure _)

theorem commaList (hp : Alike p) (hadvances : Advances 0 p) : Alike (commaList p) :=
  peek_bind rfl fun _ => .ite (.pure _)
    (turns (commaSeparated_bounds hadvances) () (commaSeparated hp))

/-! ### Expressions -/

section Expressions

variable {operand e : Parser Expr}

theorem chain (h : Alike operand) (level : Nat) : ∀ n left, Alike (chain operand level n left)
  | 0, left => .pure left
  | n + 1, left => (infixAt level).bind fun
    | none => .pure left
    | some op => h.bind fun right => chain h level n (op.node left right)

theorem infixLevels (h : Alike operand) (hadvances : Advances 0 operand) :
    Alike (infixLevels operand) := by
  rw [Parser.infixLevels]
  induction List.range InfixOp.levelCount with
  | nil => exact h
  | cons level levels ih =>
    have hbounds := chain_bounds (hadvances.foldr_infixLevel levels) level
    exact ih.bind fun left => turns hbounds left fun n => chain ih level n left

theorem primary (h : Alike e) : Alike (primary e) := by
  refine token_bind .operand (fun t ht => ?_) fun t _ => ?_
  · rw [ht, mismatch_mark ht]
  · split
    case h_7 => exact h.bind fun _ => (expect (by decide) _).bind fun _ => .pure _
    case h_8 => exact fail _
    all_goals exact .pure _

theorem calls (h : Alike e) (hadvances : Advances 0 e) : ∀ n callee, Alike (calls e n callee)
  | 0, callee => .pure callee
  | n + 1, callee => (accept (by decide)).bind fun _ => .ite
    ((commaList h hadvances).bind fun _ => (expect (by decide) _).bind fun _ =>
      calls h hadvances n _) (.pure callee)

theorem unaryLevel (hoperand : Alike operand) (h : Alike e) (hadvances : Advances 0 e) :
    Alike (unaryLevel operand e) :=
  unaryOperator.bind fun
    | some (_, _) => hoperand.bind fun _ => .pure _
    | none => (primary h).bind fun callee =>
      turns (calls_bounds hadvances) callee fun n => calls h hadvances n callee

theorem unary : ∀ n, Alike (unary n)
  | 0 => unaryLevel tooDeep tooDeep .tooDeep
  | n + 1 =>
    have hadvances : Advances 0 (Parser.unary n) := (Advances.unary n).zero
    unaryLevel (unary n) (infixLevels (unary n) hadvances) (.infixLevels hadvances)

theorem expression : ∀ n, Alike (expression n)
  | 0 => tooDeep
  | n + 1 => infixLevels (unary n) (Advances.unary n).zero

end Expressions

end Alike

/-! ### Statements -/

namespace AlikeBefore

variable {f : Token → Parser β}

/-- The **word** that a statement begins with is not the end. -/
theorem word_bind (expected : Expected) (h : ∀ t, Alike (f t)) :
    AlikeBefore (token expected >>= f) :=
  fun stop stop' hstop hstop' t ts hts _ => h t stop stop' hstop hstop' ts hts

theorem peek_bind {f : Option Token.Kind → Parser β} (h : ∀ kind, AlikeBefore (f kind)) :
    AlikeBefore (peek >>= f) :=
  fun stop stop' hstop hstop' t ts hts ht => h (some t.kind) stop stop' hstop hstop' t ts hts ht

variable {e : Parser Expr} {b : Parser Block}

theorem declaration (he : Alike e) : AlikeBefore (declaration e) :=
  word_bind _ fun _ => (Alike.identifier _).bind fun (_, _) =>
    (Alike.accept (by decide)).bind fun _ => .ite (he.bind fun _ => .pure _) (.pure _)

theorem printing (he : Alike e) : AlikeBefore (printing e) :=
  word_bind _ fun _ => he.bind fun _ => .pure _

theorem conditional (he : Alike e) (hb : Alike b) : AlikeBefore (conditional e b) :=
  word_bind _ fun _ => he.bind fun _ => hb.bind fun _ => (Alike.accept (by decide)).bind fun _ =>
    .ite (hb.bind fun _ => .pure _) (.pure _)

theorem loop (he : Alike e) (hb : Alike b) : AlikeBefore (loop e b) :=
  word_bind _ fun _ => he.bind fun _ => hb.bind fun _ => .pure _

theorem function (hb : Alike b) : AlikeBefore (function b) :=
  word_bind _ fun _ => (Alike.identifier _).bind fun (_, _) =>
    (Alike.expect (by decide) _).bind fun _ =>
      ((Alike.identifier _).commaList (Advances.identifier _).zero).bind fun _ =>
        (Alike.expect (by decide) _).bind fun _ => hb.bind fun _ => .pure _

theorem exit (he : Alike e) : AlikeBefore (exit e) :=
  word_bind _ fun _ => he.bind fun _ => .pure _

theorem bareStatement (he : Alike e) (hb : Alike b) : AlikeBefore (bareStatement e b) := by
  refine peek_bind fun kind => ?_
  split
  · exact declaration he
  · exact printing he
  · exact conditional he hb
  · exact loop he hb
  · exact function hb
  · exact exit he
  · exact (hb.bind fun _ => .pure _).before
  · exact (he.bind fun _ => .pure _).before

end AlikeBefore

namespace Alike

section Statements

variable {e : Parser Expr} {b : Parser Block} {s : Parser Stmt}

/-- At the end, **an expression** is what is looked for. -/
theorem bareStatement (he : Alike e) (hb : Alike b) : Alike (bareStatement e b) := by
  have hend : ∀ stop, AtEnd stop →
      Parser.bareStatement e b stop = (do return .expression (← e) : Parser Stmt) stop := by
    intro stop hstop
    rw [Parser.bareStatement, bind_apply_of_ok (peek_eq_ok.mpr ⟨rfl, rfl⟩)]
    rcases hstop.head?_kind with hkind | hkind <;> rw [hkind]
  rintro stop stop' hstop hstop' (_ | ⟨t, ts⟩) hts
  · rw [List.nil_append, List.nil_append, hend stop hstop, hend stop' hstop']
    exact he.bind (fun _ => .pure _) stop stop' hstop hstop' [] hts
  · obtain ⟨ht, hts⟩ := List.forall_mem_cons.mp hts
    exact AlikeBefore.bareStatement he hb stop stop' hstop hstop' t ts hts ht

theorem statementOf (he : Alike e) (hb : Alike b) : Alike (statementOf e b) :=
  (bareStatement he hb).bind fun _ => (accept (by decide)).bind fun _ => .pure _

theorem statementsInBlock (hs : Alike s) : ∀ n, Alike (statementsInBlock s n)
  | 0 => fail _
  | n + 1 => peek_bind rfl fun _ => .ite (.pure _) <| atEnd.bind fun _ => .ite (fail _) <|
    hs.bind fun _ => (statementsInBlock hs n).bind fun _ => .pure _

theorem braced (hs : Alike s) (hshort : Shortens s) : Alike (braced s) :=
  (expect (by decide) _).bind fun _ =>
    (turns (statementsInBlock_bounds hshort) () (statementsInBlock hs)).bind fun _ =>
      (expect (by decide) _).bind fun _ => .pure _

theorem block : ∀ n, Alike (block n)
  | 0 => tooDeep
  | n + 1 => braced (statementOf (expression n) (block n)) (statement_shortens n)

theorem statement (n : Nat) : Alike (statement n) :=
  statementOf (expression n) (block n)

theorem statementsToEnd (hs : Alike s) : ∀ n, Alike (statementsToEnd s n)
  | 0 => .pure _
  | n + 1 => atEnd.bind fun _ => .ite (.pure _) <|
    hs.bind fun _ => (statementsToEnd hs n).bind fun _ => .pure _

theorem program : Alike program :=
  (turns (statementsToEnd_bounds (statement_shortens nestingLimit)) ()
    (statementsToEnd (statement nestingLimit))).bind fun _ => .pure _

end Statements

end Alike

/-! ### Programs -/

variable {ts : List Token} {mark : Token}

/-- What stands **behind a mark** is left as it is, and makes no difference. -/
theorem program_append_mark (hts : Unmarked ts) (hmark : mark.kind = .endOfInput)
    (post : List Token) : program (ts ++ mark :: post) =
      ((program (ts ++ [mark])).1, (program (ts ++ [mark])).2 ++ post) := by
  have hstop : ∀ us, AtEnd (mark :: us) := fun us t ht => Option.some.inj ht ▸ hmark
  have hsame := Alike.program [mark] (mark :: post) (hstop []) (hstop post) ts hts
  generalize program (ts ++ [mark]) = o, program (ts ++ mark :: post) = o' at hsame ⊢
  cases hsame with
  | ok => simp
  | error left he =>
    rw [he.eq rfl]
    simp
  | taken h =>
    rw [h rfl]
    rfl

/-- With a mark and without one **the outcome is the same**. -/
theorem program_sameBefore (hts : Unmarked ts) (hmark : mark.kind = .endOfInput) :
    SameBefore [] [mark] (program ts) (program (ts ++ [mark])) := by
  have hstop : AtEnd [mark] := fun t ht => Option.some.inj ht ▸ hmark
  have hsame := Alike.program [] [mark] nofun hstop ts hts
  rwa [List.append_nil] at hsame

/-- A program is read **up to the end** of the input. -/
theorem atEnd_of_program {p : Program} {rest : List Token} (h : program ts = (.ok p, rest)) :
    AtEnd rest := by
  simp only [program, bind_eq_ok, turns_eq_ok, pure_eq_ok] at h
  obtain ⟨ss, _, hss, -, rfl⟩ := h
  exact (statementsToEnd_sound (statement_sound nestingLimit) _ (Nat.le_refl _) hss).2

/-- Where no token marks the end, the end is **that there are no more tokens**. -/
theorem AtEnd.eq_nil {left : List Token} (h : AtEnd left) (hleft : Unmarked left) : left = [] := by
  cases left with
  | nil => rfl
  | cons t _ => exact absurd (h t rfl) (hleft t (List.mem_cons_self ..))

end Parser

/-- **The two notions of the end of the input agree.** Take tokens of which none marks the end, a
token that marks it, and any tokens to stand behind that mark.

What stands behind the mark is left behind it and makes no difference. Without the mark the tokens
spell the same program, and all of them are taken; or the same token is misplaced; or in both cases
the input is cut short, or nesting is too deep. Only for the last two it may matter whether there is
a mark: for what would have fitted, and for where the end is if this is where nesting is too deep.

No repetition goes round for ever, be there a mark or not: the loop that makes a turn and goes on as
it began is the reader that has as many turns as there are tokens, and no other. -/
theorem parse_ends_agree (ts : List Token) (mark : Token) (post : List Token)
    (hts : ∀ t ∈ ts, t.kind ≠ .endOfInput) (hmark : mark.kind = .endOfInput) :
    parse (ts ++ mark :: post) = parse (ts ++ [mark]) ∧
    (Parser.program (ts ++ mark :: post)).2 = (Parser.program (ts ++ [mark])).2 ++ post ∧
    ((∃ p, parse ts = .ok p ∧ parse (ts ++ [mark]) = .ok p ∧
        (Parser.program ts).2 = [] ∧ (Parser.program (ts ++ [mark])).2 = [mark]) ∨
      (∃ found expected, parse ts = .error (.misplaced found expected) ∧
        parse (ts ++ [mark]) = .error (.misplaced found expected)) ∨
      (∃ expected expected', parse ts = .error (.cutShort expected) ∧
        parse (ts ++ [mark]) = .error (.cutShort expected')) ∨
      ∃ span span', parse ts = .error (.nestedTooDeep span) ∧
        parse (ts ++ [mark]) = .error (.nestedTooDeep span') ∧
        (span' = span ∨ span = .none ∧ span' = mark.span)) ∧
    ∀ (σ α : Type) (turn : Parser.Turn σ α) (r : Nat → σ → Parser α), Parser.Repetition turn r →
      ∀ next, next = turn next ↔ next = fun s => Parser.turns fun n => r n s := by
  have hbehind := Parser.program_append_mark hts hmark post
  refine ⟨by rw [parse, parse, hbehind], by rw [hbehind], ?_, fun _ _ _ _ h => h.eq_turn_iff⟩
  have hsame := Parser.program_sameBefore hts hmark
  rw [parse, parse]
  generalize hbare : Parser.program ts = o, Parser.program (ts ++ [mark]) = o' at hsame ⊢
  cases hsame with
  | @ok p left hleft =>
    have hend : Parser.AtEnd left := Parser.atEnd_of_program (List.append_nil left ▸ hbare)
    rw [hend.eq_nil hleft]
    exact .inl ⟨p, rfl, rfl, rfl, rfl⟩
  | error left he =>
    cases he with
    | misplaced => exact .inr (.inl ⟨_, _, rfl, rfl⟩)
    | cutShort => exact .inr (.inr (.inl ⟨_, _, rfl, rfl⟩))
    | nestedTooDeep => exact .inr (.inr (.inr ⟨_, _, rfl, rfl, .inl rfl⟩))
    | atEnd => exact .inr (.inr (.inr ⟨_, _, rfl, rfl, .inr ⟨rfl, rfl⟩⟩))
  | taken => exact .inr (.inr (.inl ⟨_, _, rfl, rfl⟩))

/-- A brace behind the end of the input closes no block. -/
theorem parse_ends_agree_openBlock :
    (∀ t ∈ [(⟨.mark .leftBrace, .none⟩ : Token), ⟨.identifier "x", .none⟩],
      t.kind ≠ .endOfInput) ∧ (⟨.endOfInput, .none⟩ : Token).kind = .endOfInput ∧
    parse [⟨.mark .leftBrace, .none⟩, ⟨.identifier "x", .none⟩] =
      .error (.cutShort .closingBlock) ∧
    parse ([⟨.mark .leftBrace, .none⟩, ⟨.identifier "x", .none⟩] ++
      ⟨.endOfInput, .none⟩ :: [⟨.mark .rightBrace, .none⟩]) = .error (.cutShort .closingBlock) := by
  have hts : ∀ t ∈ [(⟨.mark .leftBrace, .none⟩ : Token), ⟨.identifier "x", .none⟩],
      t.kind ≠ .endOfInput := by decide
  have hagree := parse_ends_agree _ ⟨.endOfInput, .none⟩ [⟨.mark .rightBrace, .none⟩] hts rfl
  exact ⟨hts, rfl, rfl, hagree.1.trans rfl⟩

end ScopeScript
