import ScopeScript.Proofs.LevelCounter
import ScopeScript.Proofs.Nodes

/-!
# Reading on after an error

A reading can be asked for statements and expressions one after the other, also when what came
before was an error. Every such request **takes a token at least**, as long as there is one, and
nothing of it is left but the tokens behind: the reading goes on as a fresh one over these tokens
would (`ScopeScript.Reading.after_recovers`).

That a request takes a token is shown of readers whatever they end in, so that no error escapes it;
the first token of a construct is taken even where it is the one that does not fit. That nothing
else is left is read off from the counter of levels, which every request leaves where it was.
-/

namespace ScopeScript

/-! ### What a reader takes -/

namespace Parser

variable {α β : Type} {p : Parser α} {f : α → Parser β} {j k n : Nat}

/-- Whatever the reader ends in, it leaves a list **without so many tokens of its front**, and
perhaps without more of them. -/
def Advances (k : Nat) (p : Parser α) : Prop :=
  ∀ ts, (p ts).2 <:+ ts.drop k

namespace Advances

theorem mono (h : Advances k p) (hle : j ≤ k) : Advances j p :=
  fun ts => (h ts).trans (List.drop_suffix_drop_left ts hle)

theorem zero (h : Advances k p) : Advances 0 p :=
  h.mono (Nat.zero_le k)

/-- What comes **after a step that takes tokens** need not take any. -/
theorem bind (h : Advances k p) (hf : ∀ a, Advances 0 (f a)) : Advances k (p >>= f) := by
  intro ts
  have hp := h ts
  rcases hts : p ts with ⟨_ | a, rest⟩
  · rw [hts] at hp
    rw [bind_apply_of_error hts]
    exact hp
  · rw [hts] at hp
    rw [bind_apply_of_ok hts]
    exact (hf a rest).trans hp

theorem ite {P : Prop} [Decidable P] {q : Parser α} (h : Advances k p) (h' : Advances k q) :
    Advances k (if P then p else q) := by
  split
  · exact h
  · exact h'

/-! ### Single tokens -/

protected theorem pure (a : α) : Advances 0 (pure a) :=
  fun _ => List.suffix_rfl

theorem fail (e : ParseError) : Advances 0 (fail e : Parser α) :=
  fun _ => List.suffix_rfl

theorem tooDeep : Advances 0 (tooDeep : Parser α) :=
  fun _ => List.suffix_rfl

/-- What is read **behind a look at the next token** counts for both. -/
theorem peek_bind {f : Option Token.Kind → Parser β} (h : ∀ kind, Advances k (f kind)) :
    Advances k (peek >>= f) :=
  fun ts => h (ts.head?.map Token.kind) ts

theorem atEnd : Advances 0 atEnd := by
  rintro (_ | ⟨t, ts⟩) <;> exact List.suffix_rfl

theorem accept (kind : Token.Kind) : Advances 0 (accept kind) := by
  rintro (_ | ⟨t, ts⟩)
  · exact List.suffix_rfl
  · rw [Parser.accept]
    split
    · exact List.suffix_cons t ts
    · exact List.suffix_rfl

theorem infixAt (level : Nat) : Advances 0 (infixAt level) := by
  rintro (_ | ⟨t, ts⟩)
  · exact List.suffix_rfl
  · rw [Parser.infixAt]
    split
    · split
      · exact List.suffix_cons t ts
      · exact List.suffix_rfl
    · exact List.suffix_rfl

theorem token (expected : Expected) : Advances 1 (token expected) := by
  rintro (_ | ⟨t, ts⟩) <;> exact List.suffix_rfl

/-- A token **that does not fit** is taken too. -/
theorem expect (kind : Token.Kind) (expected : Expected) : Advances 1 (expect kind expected) :=
  (token expected).bind fun _ => .ite (.pure _) (.fail _)

theorem identifier (expected : Expected) : Advances 1 (identifier expected) := by
  refine (token expected).bind fun t => ?_
  split
  · exact .pure _
  · exact .fail _

/-- Where there is a unary operator, **it is the token** that the rule takes. -/
theorem unaryOperator_bind {f : Option (UnaryOp × Span) → Parser β}
    (hsome : ∀ op, Advances 0 (f (some op))) (hnone : Advances 1 (f none)) :
    Advances 1 (unaryOperator >>= f) := by
  rintro (_ | ⟨t, ts⟩)
  · exact hnone []
  · cases hop : t.kind.unaryOp? with
    | some op =>
      have htaken : unaryOperator (t :: ts) = (.ok (some (op, t.span)), ts) := by
        simp [unaryOperator, hop]
      rw [bind_apply_of_ok htaken]
      exact hsome _ ts
    | none =>
      have hkept : unaryOperator (t :: ts) = (.ok none, t :: ts) := by
        simp [unaryOperator, hop]
      rw [bind_apply_of_ok hkept]
      exact hnone (t :: ts)

/-! ### Repetitions -/

theorem turns {r : Nat → Parser α} (h : ∀ n, Advances k (r n)) : Advances k (turns r) :=
  fun ts => h ts.length ts

theorem commaSeparated (h : Advances k p) : ∀ n, Advances k (commaSeparated p n)
  | 0 => h.bind fun _ => .pure _
  | n + 1 => h.bind fun _ => (accept _).bind fun _ =>
    .ite ((commaSeparated h n).zero.bind fun _ => .pure _) (.pure _)

theorem commaList (h : Advances 0 p) : Advances 0 (commaList p) :=
  peek_bind fun _ => .ite (.pure _) (turns (commaSeparated h))

/-! ### Expressions -/

section Expressions

variable {operand e : Parser Expr}

theorem chain (h : Advances 0 operand) (level : Nat) :
    ∀ n left, Advances 0 (chain operand level n left)
  | 0, left => .pure left
  | n + 1, left => (infixAt level).bind fun
    | none => .pure left
    | some op => h.bind fun right => chain h level n (op.node left right)

/-- Operands **of any levels** take what the first operand takes. -/
theorem foldr_infixLevel (h : Advances k operand) (levels : List Nat) :
    Advances k (levels.foldr infixLevel operand) := by
  induction levels with
  | nil => exact h
  | cons level levels ih =>
    exact ih.bind fun left => turns fun n => chain ih.zero level n left

theorem infixLevels (h : Advances k operand) : Advances k (infixLevels operand) :=
  h.foldr_infixLevel (List.range InfixOp.levelCount)

theorem levelsFrom (h : Advances k operand) (level : Nat) :
    Advances k (levelsFrom level operand) :=
  h.foldr_infixLevel _

theorem primary (h : Advances 0 e) : Advances 1 (primary e) := by
  refine (token _).bind fun t => ?_
  split
  case h_7 => exact h.bind fun _ => (expect _ _).zero.bind fun _ => .pure _
  case h_8 => exact fail _
  all_goals exact .pure _

theorem calls (h : Advances 0 e) : ∀ n callee, Advances 0 (calls e n callee)
  | 0, callee => .pure callee
  | n + 1, callee => (accept _).bind fun _ => .ite
    ((commaList h).bind fun _ => (expect _ _).zero.bind fun _ => calls h n _) (.pure callee)

theorem unaryLevel (hoperand : Advances 0 operand) (h : Advances 0 e) :
    Advances 1 (unaryLevel operand e) :=
  unaryOperator_bind (fun (_, _) => hoperand.bind fun _ => .pure _)
    ((primary h).bind fun callee => turns fun n => calls h n callee)

/-- Even **with no level left** for what they enclose, an operator and a parenthesis are taken. -/
theorem unary : ∀ n, Advances 1 (unary n)
  | 0 => unaryLevel tooDeep tooDeep
  | n + 1 => unaryLevel (unary n).zero (infixLevels (unary n)).zero

theorem expression (hk : k ≤ 1) (hn : k ≤ n) : Advances k (expression n) := by
  cases n with
  | zero => exact tooDeep.mono hn
  | succ n => exact (infixLevels (unary n)).mono hk

end Expressions

/-! ### Statements -/

section Statements

variable {e : Parser Expr} {b : Parser Block} {s : Parser Stmt}

theorem declaration (h : Advances 0 e) : Advances 1 (declaration e) :=
  (token _).bind fun _ => (identifier _).zero.bind fun (_, _) => (accept _).bind fun _ =>
    .ite (h.bind fun _ => .pure _) (.pure _)

theorem printing (h : Advances 0 e) : Advances 1 (printing e) :=
  (token _).bind fun _ => h.bind fun _ => .pure _

theorem conditional (h : Advances 0 e) (hb : Advances 0 b) : Advances 1 (conditional e b) :=
  (token _).bind fun _ => h.bind fun _ => hb.bind fun _ => (accept _).bind fun _ =>
    .ite (hb.bind fun _ => .pure _) (.pure _)

theorem loop (h : Advances 0 e) (hb : Advances 0 b) : Advances 1 (loop e b) :=
  (token _).bind fun _ => h.bind fun _ => hb.bind fun _ => .pure _

theorem function (hb : Advances 0 b) : Advances 1 (function b) :=
  (token _).bind fun _ => (identifier _).zero.bind fun (_, _) => (expect _ _).zero.bind fun _ =>
    (commaList (identifier _).zero).bind fun _ => (expect _ _).zero.bind fun _ =>
      hb.bind fun _ => .pure _

theorem exit (h : Advances 0 e) : Advances 1 (exit e) :=
  (token _).bind fun _ => h.bind fun _ => .pure _

/-- **Every sort of statement** takes a token; the look at the first one may leave that to it. -/
theorem bareStatement (hk : k ≤ 1) (h : Advances k e) (hb : Advances k b) :
    Advances k (bareStatement e b) := by
  refine peek_bind fun kind => ?_
  split
  · exact (declaration h.zero).mono hk
  · exact (printing h.zero).mono hk
  · exact (conditional h.zero hb.zero).mono hk
  · exact (loop h.zero hb.zero).mono hk
  · exact (function hb.zero).mono hk
  · exact (exit h.zero).mono hk
  · exact hb.bind fun _ => .pure _
  · exact h.bind fun _ => .pure _

theorem statementOf (hk : k ≤ 1) (h : Advances k e) (hb : Advances k b) :
    Advances k (statementOf e b) :=
  (bareStatement hk h hb).bind fun _ => (accept _).bind fun _ => .pure _

theorem statementsInBlock (h : Advances 0 s) : ∀ n, Advances 0 (statementsInBlock s n)
  | 0 => fail _
  | n + 1 => peek_bind fun _ => .ite (.pure _) <| atEnd.bind fun _ => .ite (fail _) <|
    h.bind fun _ => (statementsInBlock h n).bind fun _ => .pure _

theorem braced (h : Advances 0 s) : Advances 1 (braced s) :=
  (expect _ _).bind fun _ => (turns (statementsInBlock h)).bind fun _ =>
    (expect _ _).zero.bind fun _ => .pure _

theorem block (hk : k ≤ 1) (hn : k ≤ n) : Advances k (block n) := by
  induction n generalizing k with
  | zero => exact tooDeep.mono hn
  | succ n ih =>
    have hinner : Advances 0 (Parser.statementOf (Parser.expression n) (Parser.block n)) :=
      statementOf (Nat.zero_le 1) (expression (Nat.zero_le 1) (Nat.zero_le n))
        (ih (Nat.zero_le 1) (Nat.zero_le n))
    exact (braced hinner).mono hk

/-- A statement takes a token **where one level is left**. -/
theorem statement (hk : k ≤ 1) (hn : k ≤ n) : Advances k (statement n) :=
  statementOf hk (expression hk hn) (block hk hn)

end Statements

end Advances

end Parser

/-! ### Requests -/

/-- What a reading can be **asked for**. -/
inductive Request where
  /-- One statement. -/
  | statement
  /-- One expression. -/
  | expression
deriving DecidableEq

namespace Request

/-- The **answer of a reading** to a request, by the grammar that counts the levels. -/
def answer : Request → Counting Node
  | statement => do return .stmt (← Counting.statement nestingLimit)
  | expression => do return .expr (← Counting.expression nestingLimit)

/-- The **reader** for a request. -/
def reader : Request → Parser Node
  | statement => do return .stmt (← Parser.statement nestingLimit)
  | expression => do return .expr (← Parser.expression nestingLimit)

variable {request : Request}

/-- At the beginning the counter stands at zero, **and so it does when the request is answered**. -/
theorem counts (request : Request) : Counting.Counts 0 request.answer request.reader := by
  have hdepth : 0 + nestingLimit = nestingLimit := Nat.zero_add nestingLimit
  cases request with
  | statement => exact (Counting.Counts.statement hdepth (Nat.le_refl _)).bind fun _ => .pure _
  | expression => exact (Counting.Counts.expression hdepth (Nat.le_refl _)).bind fun _ => .pure _

theorem advances (request : Request) : request.reader.Advances 1 := by
  have hlevel : 1 ≤ nestingLimit := by decide
  cases request with
  | statement => exact (Parser.Advances.statement (Nat.le_refl 1) hlevel).bind fun _ => .pure _
  | expression => exact (Parser.Advances.expression (Nat.le_refl 1) hlevel).bind fun _ => .pure _

theorem answer_fresh (request : Request) (ts : List Token) :
    request.answer (Reading.fresh ts) =
      ((request.reader ts).1, Reading.fresh (request.reader ts).2) :=
  request.counts ts

end Request

namespace Reading

/-- Where a reading stands **after the requests**, whatever the answers to them have been. -/
def after (r : Reading) : List Request → Reading
  | [] => r
  | request :: requests => (request.answer r).2.after requests

/-- After any requests a reading is **a fresh one** of tokens at the back, and fewer by the requests
at the least. -/
theorem exists_after_eq_fresh (tokens : List Token) (requests : List Request) :
    ∃ rest, (fresh tokens).after requests = fresh rest ∧ rest <:+ tokens ∧
      rest.length ≤ tokens.length - requests.length := by
  induction requests generalizing tokens with
  | nil => exact ⟨tokens, rfl, List.suffix_rfl, Nat.le_refl _⟩
  | cons request requests ih =>
    obtain ⟨rest, hafter, hrest, hlength⟩ := ih (request.reader tokens).2
    have hstep : (request.reader tokens).2 <:+ tokens.drop 1 := request.advances tokens
    refine ⟨rest, ?_, hrest.trans (hstep.trans (List.drop_suffix 1 tokens)), ?_⟩
    · rw [after, request.answer_fresh, hafter]
    · have hone : (request.reader tokens).2.length ≤ tokens.length - 1 :=
        List.length_drop ▸ hstep.length_le
      rw [List.length_cons]
      omega

/-- **Reading goes on cleanly after errors.** Let a reading of any tokens be asked for statements
and expressions, as often and in whatever order, each answer being a result or an error. Then the
tokens taken are a front of the list, and the counter of levels stands at zero; where there have
been as many requests as there are tokens, none is left. The next request has the answer that it has
in a fresh reading of the tokens left, which is that of the reader, and takes at least one of these
tokens if there are any. -/
theorem after_recovers (tokens : List Token) (requests : List Request) :
    let reached := (fresh tokens).after requests
    (∃ taken, tokens = taken ++ reached.tokens) ∧ reached.depth = 0 ∧
      (tokens.length ≤ requests.length → reached.tokens = []) ∧
      ∀ next : Request,
        next.answer reached = next.answer (fresh reached.tokens) ∧
        next.answer reached =
          ((next.reader reached.tokens).1, fresh (next.reader reached.tokens).2) ∧
        ∃ taken, reached.tokens = taken ++ (next.answer reached).2.tokens ∧
          (reached.tokens ≠ [] → taken ≠ []) := by
  obtain ⟨rest, hafter, ⟨taken, htaken⟩, hlength⟩ := exists_after_eq_fresh tokens requests
  rw [hafter]
  refine ⟨⟨taken, htaken.symm⟩, rfl, fun hlong => ?_, fun next => ?_⟩
  · exact List.eq_nil_of_length_eq_zero (by change rest.length = 0; omega)
  · obtain ⟨skipped, hskipped⟩ := next.advances rest
    refine ⟨rfl, next.answer_fresh rest, rest.take 1 ++ skipped, ?_, fun hne hnil => ?_⟩
    · rw [next.answer_fresh, List.append_assoc]
      exact (hskipped ▸ List.take_append_drop 1 rest).symm
    · rcases List.take_eq_nil_iff.mp (List.append_eq_nil_iff.mp hnil).1 with h | h
      · exact absurd h (by decide)
      · exact hne h

end Reading

end ScopeScript
