import ScopeScript.Proofs.FirstError
import ScopeScript.Proofs.Recovery

/-!
# Repetitions without a bound

The readers of the grammar that repeat something are given a number of turns, as many as there are
tokens (`ScopeScript.Parser.turns`). A parser that is a loop has no such number: it makes a turn,
and goes on as it has begun. This file says what that means, namely that the reader solves the
equation `next = turn next`, and shows that for each repetition of the grammar **this equation has
one solution, which is the reader with the turns** (`ScopeScript.Parser.Repetition.eq_turn_iff`).

What makes the solution unique is that a turn takes a token before it goes on, so that no repetition
goes on for ever, whatever the tokens are and whether or not the end of the input is marked among
them. The same makes it irrelevant how many turns there are, if there are enough of them
(`ScopeScript.Parser.Bounds.apply_eq_turns`).
-/

namespace ScopeScript

namespace Parser

variable {α β σ : Type} {ts rest : List Token}

/-! ### Turns -/

/-- **A turn of a repetition**, given how the repetition goes on from each state. -/
abbrev Turn (σ α : Type) : Type :=
  (σ → Parser α) → σ → Parser α

/-- The turn **goes on with fewer tokens only**: it makes no difference between two ways to go on
that are the same with fewer tokens. -/
def Turn.Shrinks (turn : Turn σ α) : Prop :=
  ∀ next next' s ts, (∀ s' us, us.length < ts.length → next s' us = next' s' us) →
    turn next s ts = turn next' s ts

/-- With no tokens left a turn **does not go on**. -/
theorem Turn.Shrinks.apply_nil {turn : Turn σ α} (h : turn.Shrinks) (next next' : σ → Parser α)
    (s : σ) : turn next s [] = turn next' s [] :=
  h next next' s [] fun _ us hus => absurd hus (Nat.not_lt_zero us.length)

/-- The reader with a number of turns **makes these turns**. With none of them left it does, where
there is no token left either, what another turn would do. -/
structure Bounds (turn : Turn σ α) (r : Nat → σ → Parser α) : Prop where
  /-- Each turn takes a token before the next. -/
  shrinks : turn.Shrinks
  /-- A turn is made, and there is one less. -/
  succ : ∀ n s, r (n + 1) s = turn (r n) s
  /-- The turns have come to an end with the tokens. -/
  zero : ∀ s, r 0 s [] = turn (r 0) s []

namespace Bounds

variable {turn : Turn σ α} {r : Nat → σ → Parser α} {s : σ}

theorem apply_nil (h : Bounds turn r) (n : Nat) (s : σ) : r n s [] = r 0 s [] := by
  cases n with
  | zero => rfl
  | succ n =>
    rw [h.succ, h.zero]
    exact h.shrinks.apply_nil _ _ s

/-- **The number of turns does not matter**, if there are as many as tokens. -/
theorem apply_congr (h : Bounds turn r) {n m : Nat} (hn : ts.length ≤ n) (hm : ts.length ≤ m) :
    r n s ts = r m s ts := by
  induction n generalizing m s ts with
  | zero =>
    obtain rfl := List.eq_nil_of_length_eq_zero (Nat.le_zero.mp hn)
    exact (h.apply_nil m s).symm
  | succ n ih =>
    cases m with
    | zero =>
      obtain rfl := List.eq_nil_of_length_eq_zero (Nat.le_zero.mp hm)
      exact h.apply_nil (n + 1) s
    | succ m =>
      rw [h.succ, h.succ]
      exact h.shrinks _ _ s ts fun s' us hus => ih (by omega) (by omega)

theorem apply_eq_turns (h : Bounds turn r) {n : Nat} (hn : ts.length ≤ n) :
    r n s ts = turns (fun n => r n s) ts :=
  h.apply_congr hn (Nat.le_refl _)

/-- The reader with as many turns as there are tokens **makes a turn and goes on** as it began. -/
theorem turn_turns (h : Bounds turn r) :
    turn (fun s => turns fun n => r n s) = fun s => turns fun n => r n s := by
  funext s ts
  cases ts with
  | nil => exact (h.shrinks.apply_nil _ _ s).trans (h.zero s).symm
  | cons t ts =>
    refine Eq.trans ?_ (congrFun (h.succ ts.length s) (t :: ts)).symm
    exact h.shrinks _ _ s (t :: ts) fun s' us hus =>
      (h.apply_eq_turns (Nat.le_of_lt_succ hus)).symm

/-- Whatever makes a turn and goes on as it began **is that reader**. -/
theorem eq_turns (h : Bounds turn r) {next : σ → Parser α} (hnext : next = turn next) :
    next = fun s => turns fun n => r n s := by
  have hall : ∀ n s ts, ts.length ≤ n → next s ts = r n s ts := by
    intro n
    induction n with
    | zero =>
      intro s ts hts
      obtain rfl := List.eq_nil_of_length_eq_zero (Nat.le_zero.mp hts)
      rw [hnext, h.zero]
      exact h.shrinks.apply_nil _ _ s
    | succ n ih =>
      intro s ts hts
      rw [hnext, h.succ]
      exact h.shrinks _ _ s ts fun s' us hus => ih s' us (by omega)
  funext s ts
  exact hall ts.length s ts (Nat.le_refl _)

theorem eq_turn_iff (h : Bounds turn r) (next : σ → Parser α) :
    next = turn next ↔ next = fun s => turns fun n => r n s := by
  refine ⟨h.eq_turns, ?_⟩
  rintro rfl
  exact h.turn_turns.symm

end Bounds

/-! ### What a turn does with what comes next -/

/-- Readers that begin alike and go on alike **read alike**. -/
theorem bind_apply_congr {p q : Parser α} {f g : α → Parser β} (hp : p ts = q ts)
    (hf : ∀ a rest, p ts = (.ok a, rest) → f a rest = g a rest) : (p >>= f) ts = (q >>= g) ts := by
  rcases hpts : p ts with ⟨_ | a, rest⟩
  · rw [bind_apply_of_error hpts, bind_apply_of_error (hp.symm.trans hpts)]
  · rw [bind_apply_of_ok hpts, bind_apply_of_ok (hp.symm.trans hpts)]
    exact hf a rest hpts

theorem ite_apply_congr {c : Prop} [Decidable c] {p q p' q' : Parser α} (h : c → p ts = q ts)
    (h' : ¬ c → p' ts = q' ts) : (if c then p else p') ts = (if c then q else q') ts := by
  split
  · next hc => exact h hc
  · next hc => exact h' hc

/-- A reader that puts nothing back leaves **no more tokens** than there were. -/
theorem Advances.length_le {k : Nat} {p : Parser α} {o : Except ParseError α} (h : Advances k p)
    (hp : p ts = (o, rest)) : rest.length ≤ ts.length := by
  have hrest : (p ts).2 <:+ ts := (h ts).trans (List.drop_suffix k ts)
  rw [hp] at hrest
  exact hrest.length_le

theorem length_lt_of_accept {kind : Token.Kind} {found : Bool} (hfound : found = true)
    (h : accept kind ts = (.ok found, rest)) : rest.length < ts.length := by
  subst hfound
  obtain ⟨span, rfl⟩ := accept_eq_ok.mp h
  exact Nat.lt_succ_self rest.length

/-! ### The repetitions of the grammar -/

section Turns

variable {operand expression : Parser Expr} {item : Parser α} {statement : Parser Stmt}

/-- A turn **behind a left operand**: if an operator of the level follows, its right operand. -/
def chainTurn (operand : Parser Expr) (level : Nat) : Turn Expr Expr := fun next left => do
  match ← infixAt level with
  | none => return left
  | some op =>
    let right ← operand
    next (op.node left right)

theorem chain_bounds (h : Advances 0 operand) (level : Nat) :
    Bounds (chainTurn operand level) (chain operand level) where
  shrinks next next' left ts hnext := by
    refine bind_apply_congr rfl fun found mid hfound => ?_
    cases found with
    | none => rfl
    | some op =>
      obtain ⟨kind, span, rfl, -, -⟩ := infixAt_eq_some.mp hfound
      refine bind_apply_congr rfl fun right rest hright => hnext _ _ ?_
      exact Nat.lt_succ_of_le (h.length_le hright)
  succ _ _ := rfl
  zero _ := rfl

/-- A turn **behind a callee**: if an argument list follows, the arguments. -/
def callsTurn (expression : Parser Expr) : Turn Expr Expr := fun next callee => do
  if ← accept (.mark .leftParen) then
    let arguments ← commaList expression
    let close ← expect (.mark .rightParen) .closingArguments
    next (.call callee arguments (callee.span.merge close))
  else
    return callee

theorem calls_bounds (h : Advances 0 expression) : Bounds (callsTurn expression) (calls expression)
    where
  shrinks next next' callee ts hnext := by
    refine bind_apply_congr rfl fun found mid hfound => ite_apply_congr (fun hopen => ?_) ?_
    · refine bind_apply_congr rfl fun arguments mid' harguments => ?_
      refine bind_apply_congr rfl fun close rest hclose => hnext _ _ ?_
      calc rest.length ≤ mid'.length := (Advances.expect _ _).length_le hclose
        _ ≤ mid.length := (Advances.commaList h).length_le harguments
        _ < ts.length := length_lt_of_accept hopen hfound
    · exact fun _ => rfl
  succ _ _ := rfl
  zero _ := rfl

/-- A turn **of a list**: an item, and if a comma follows, more of them. -/
def commaTurn (item : Parser α) : Turn Unit (List α) := fun next _ => do
  let x ← item
  if ← accept (.mark .comma) then
    return x :: (← next ())
  else
    return [x]

theorem commaSeparated_bounds (h : Advances 0 item) :
    Bounds (commaTurn item) fun n _ => commaSeparated item n where
  shrinks next next' _ ts hnext := by
    refine bind_apply_congr rfl fun x mid hx => ?_
    refine bind_apply_congr rfl fun found mid' hfound => ite_apply_congr (fun hcomma => ?_) ?_
    · refine bind_apply_congr (hnext _ _ ?_) fun _ _ _ => rfl
      exact Nat.lt_of_lt_of_le (length_lt_of_accept hcomma hfound) (h.length_le hx)
    · exact fun _ => rfl
  succ _ _ := rfl
  zero _ := by
    refine bind_apply_congr rfl fun x mid hx => ?_
    -- an item that is read from no tokens leaves none, so no comma follows
    obtain rfl := List.eq_nil_of_length_eq_zero (Nat.le_zero.mp (h.length_le hx))
    rfl

/-- A turn **in a block**: a statement, unless a brace closes the block or the input ends. -/
def inBlockTurn (statement : Parser Stmt) : Turn Unit (List Stmt) := fun next _ => do
  if (← peek) = some (.mark .rightBrace) then
    return []
  else if ← atEnd then
    fail (.cutShort .closingBlock)
  else
    let s ← statement
    return s :: (← next ())

theorem statementsInBlock_bounds (h : Shortens statement) :
    Bounds (inBlockTurn statement) fun n _ => statementsInBlock statement n where
  shrinks next next' _ ts hnext := by
    refine bind_apply_congr rfl fun kind mid hkind => ?_
    obtain ⟨-, rfl⟩ := peek_eq_ok.mp hkind
    refine ite_apply_congr (fun _ => rfl) fun _ => ?_
    refine bind_apply_congr rfl fun ended mid hended => ?_
    obtain ⟨-, rfl⟩ := atEnd_eq_ok.mp hended
    refine ite_apply_congr (fun _ => rfl) fun _ => ?_
    exact bind_apply_congr rfl fun s rest hs =>
      bind_apply_congr (hnext _ _ (h ts s rest hs)) fun _ _ _ => rfl
  succ _ _ := rfl
  zero _ := rfl

/-- A turn **of a program**: a statement, unless the input ends. -/
def toEndTurn (statement : Parser Stmt) : Turn Unit (List Stmt) := fun next _ => do
  if ← atEnd then
    return []
  else
    let s ← statement
    return s :: (← next ())

theorem statementsToEnd_bounds (h : Shortens statement) :
    Bounds (toEndTurn statement) fun n _ => statementsToEnd statement n where
  shrinks next next' _ ts hnext := by
    refine bind_apply_congr rfl fun ended mid hended => ?_
    obtain ⟨-, rfl⟩ := atEnd_eq_ok.mp hended
    refine ite_apply_congr (fun _ => rfl) fun _ => ?_
    exact bind_apply_congr rfl fun s rest hs =>
      bind_apply_congr (hnext _ _ (h ts s rest hs)) fun _ _ _ => rfl
  succ _ _ := rfl
  zero _ := rfl

end Turns

/-- **The repetitions of the grammar**: a turn of each, and the reader with a number of turns. -/
inductive Repetition : {σ α : Type} → Turn σ α → (Nat → σ → Parser α) → Prop
  /-- The infix operators of a level. -/
  | operators (n l : Nat) :
    Repetition (chainTurn (levelsFrom (l + 1) (unary n)) l) (chain (levelsFrom (l + 1) (unary n)) l)
  /-- The argument lists behind a callee. -/
  | argumentLists (n : Nat) : Repetition (callsTurn (expression n)) (calls (expression n))
  /-- The arguments in a list. -/
  | arguments (n : Nat) :
    Repetition (commaTurn (expression n)) fun m _ => commaSeparated (expression n) m
  /-- The parameters of a procedure. -/
  | parameters : Repetition (commaTurn (identifier .parameterName)) fun m _ =>
      commaSeparated (identifier .parameterName) m
  /-- The statements of a block. -/
  | inBlock (n : Nat) :
    Repetition (inBlockTurn (statement n)) fun m _ => statementsInBlock (statement n) m
  /-- The statements of a program. -/
  | toEnd : Repetition (toEndTurn (statement nestingLimit)) fun m _ =>
      statementsToEnd (statement nestingLimit) m

theorem Repetition.bounds {turn : Turn σ α} {r : Nat → σ → Parser α} (h : Repetition turn r) :
    Bounds turn r := by
  have hexpression : ∀ n, Advances 0 (Parser.expression n) := fun n =>
    .expression (Nat.zero_le 1) (Nat.zero_le n)
  cases h with
  | operators n l => exact chain_bounds ((Advances.unary n).zero.levelsFrom (l + 1)) l
  | argumentLists n => exact calls_bounds (hexpression n)
  | arguments n => exact commaSeparated_bounds (hexpression n)
  | parameters => exact commaSeparated_bounds (Advances.identifier _).zero
  | inBlock n => exact statementsInBlock_bounds (statement_shortens n)
  | toEnd => exact statementsToEnd_bounds (statement_shortens nestingLimit)

/-- **No repetition of the grammar needs a bound**: the loop that makes a turn and goes on as it
began is the reader that is given as many turns as there are tokens, and no other. -/
theorem Repetition.eq_turn_iff {turn : Turn σ α} {r : Nat → σ → Parser α} (h : Repetition turn r)
    (next : σ → Parser α) : next = turn next ↔ next = fun s => turns fun n => r n s :=
  h.bounds.eq_turn_iff next

end Parser

end ScopeScript
