import ScopeScript.Program.Parser

/-!
# What a reader has read

A reader that succeeds took certain tokens and made something of them. For the readers that the
grammar is put together from, this file says exactly which: **a reader succeeds with a result and a
rest if and only if the tokens are these**. So each of the equivalences serves both to tell what was
read and to tell that something will be read.
-/

namespace ScopeScript

namespace Parser

variable {α β : Type} {ts rest : List Token}

/-! ### Steps -/

/-- One reader after the other succeeds **if both do**. -/
@[simp] theorem bind_eq_ok {p : Parser α} {f : α → Parser β} {b : β} :
    (p >>= f) ts = (.ok b, rest) ↔ ∃ a mid, p ts = (.ok a, mid) ∧ f a mid = (.ok b, rest) := by
  rcases hp : p ts with ⟨r, mid⟩
  cases r with
  | ok a =>
    rw [bind_apply_of_ok hp]
    constructor
    · exact fun h => ⟨a, mid, rfl, h⟩
    · rintro ⟨_, _, ⟨⟩, h⟩
      exact h
  | error e => simp [bind_apply_of_error hp]

@[simp] theorem pure_eq_ok {a b : α} :
    (pure a : Parser α) ts = (.ok b, rest) ↔ a = b ∧ ts = rest := by
  simp

@[simp] theorem fail_ne_ok {e : ParseError} {a : α} : ¬ fail e ts = (.ok a, rest) := by
  simp [fail]

@[simp] theorem tooDeep_ne_ok {a : α} : ¬ tooDeep ts = (.ok a, rest) := by
  simp [tooDeep]

/-- A choice of readers reads as the **one chosen**. -/
theorem ite_apply {c : Prop} [Decidable c] (p q : Parser α) :
    (if c then p else q) ts = if c then p ts else q ts := by
  split <;> rfl

/-! ### Single tokens -/

/-- The next token is of the given kind. -/
def NextIs (kind : Token.Kind) (ts : List Token) : Prop :=
  ∃ span rest, ts = ⟨kind, span⟩ :: rest

theorem head?_kind_eq_some {kind : Token.Kind} :
    ts.head?.map Token.kind = some kind ↔ NextIs kind ts := by
  cases ts with
  | nil => simp [NextIs]
  | cons t rest =>
    obtain ⟨k, span⟩ := t
    simp [NextIs]

@[simp] theorem token_eq_ok {expected : Expected} {t : Token} :
    token expected ts = (.ok t, rest) ↔ ts = t :: rest := by
  cases ts with
  | nil => simp [token]
  | cons t' rest' => simp [token]

@[simp] theorem peek_eq_ok {kind : Option Token.Kind} :
    peek ts = (.ok kind, rest) ↔ ts.head?.map Token.kind = kind ∧ ts = rest := by
  simp [peek]

@[simp] theorem expect_eq_ok {kind : Token.Kind} {expected : Expected} {span : Span} :
    expect kind expected ts = (.ok span, rest) ↔ ts = ⟨kind, span⟩ :: rest := by
  rw [expect, bind_eq_ok]
  constructor
  · rintro ⟨⟨k, s⟩, mid, ht, h⟩
    rw [token_eq_ok] at ht
    split at h
    · next hk =>
      obtain ⟨rfl, rfl⟩ := pure_eq_ok.mp h
      rw [ht, ← hk]
    · exact absurd h fail_ne_ok
  · rintro rfl
    exact ⟨_, _, token_eq_ok.mpr rfl, by simp⟩

@[simp] theorem identifier_eq_ok {expected : Expected} {name : String × Span} :
    identifier expected ts = (.ok name, rest) ↔ ts = ⟨.identifier name.1, name.2⟩ :: rest := by
  rw [identifier, bind_eq_ok]
  constructor
  · rintro ⟨⟨k, s⟩, mid, ht, h⟩
    rw [token_eq_ok] at ht
    cases k with
    | identifier n =>
      obtain ⟨rfl, rfl⟩ := pure_eq_ok.mp h
      exact ht
    | _ => exact absurd h fail_ne_ok
  · rintro rfl
    exact ⟨_, _, token_eq_ok.mpr rfl, by simp⟩

/-- A token is **accepted** if it is the next one; otherwise nothing is taken. -/
@[simp] theorem accept_eq_ok {kind : Token.Kind} {found : Bool} :
    accept kind ts = (.ok found, rest) ↔
      if found then ∃ span, ts = ⟨kind, span⟩ :: rest else ¬ NextIs kind ts ∧ ts = rest := by
  cases ts with
  | nil => cases found <;> simp [accept, NextIs]
  | cons t rest' =>
    obtain ⟨k, s⟩ := t
    by_cases hk : k = kind
    · cases found <;> simp [accept, NextIs, hk]
    · cases found <;> simp [accept, NextIs, hk]

/-- The end of the input comes next. -/
def AtEnd (ts : List Token) : Prop :=
  ∀ t ∈ ts.head?, t.kind = .endOfInput

@[simp] theorem atEnd_eq_ok {ended : Bool} :
    atEnd ts = (.ok ended, rest) ↔ (ended = true ↔ AtEnd ts) ∧ ts = rest := by
  cases ts with
  | nil => cases ended <;> simp [atEnd, AtEnd]
  | cons t rest' => cases ended <;> simp [atEnd, AtEnd]

@[simp] theorem turns_eq_ok {repetition : Nat → Parser α} {a : α} :
    turns repetition ts = (.ok a, rest) ↔ repetition ts.length ts = (.ok a, rest) :=
  Iff.rfl

/-! ### Operators -/

/-- An infix operator **of the level** is next. -/
def InfixNext (level : Nat) (ts : List Token) : Prop :=
  ∃ t ∈ ts.head?, ∃ op, t.kind.infixOp? = some op ∧ op.level = level

@[simp] theorem infixAt_eq_some {level : Nat} {op : InfixOp} :
    infixAt level ts = (.ok (some op), rest) ↔
      ∃ kind span, ts = ⟨kind, span⟩ :: rest ∧ kind.infixOp? = some op ∧ op.level = level := by
  cases ts with
  | nil => simp [infixAt]
  | cons t rest' =>
    obtain ⟨k, s⟩ := t
    cases hop : k.infixOp? with
    | none => simp [infixAt, hop, and_assoc]
    | some op' => grind [infixAt]

@[simp] theorem infixAt_eq_none {level : Nat} :
    infixAt level ts = (.ok none, rest) ↔ ¬ InfixNext level ts ∧ ts = rest := by
  cases ts with
  | nil => simp [infixAt, InfixNext]
  | cons t rest' =>
    rw [infixAt]
    split
    · next op hop =>
      by_cases hl : op.level = level <;> simp [InfixNext, hop, hl]
    · next hop => simp [InfixNext, hop]

@[simp] theorem unaryOperator_eq_some {op : UnaryOp × Span} :
    unaryOperator ts = (.ok (some op), rest) ↔
      ∃ kind, ts = ⟨kind, op.2⟩ :: rest ∧ kind.unaryOp? = some op.1 := by
  obtain ⟨op, span⟩ := op
  cases ts with
  | nil => simp [unaryOperator]
  | cons t rest' =>
    obtain ⟨k, s⟩ := t
    cases hop : k.unaryOp? with
    | none => simp [unaryOperator, hop, and_assoc]
    | some op' => grind [unaryOperator]

@[simp] theorem unaryOperator_eq_none :
    unaryOperator ts = (.ok none, rest) ↔
      (∀ t ∈ ts.head?, t.kind.unaryOp? = none) ∧ ts = rest := by
  cases ts with
  | nil => simp [unaryOperator]
  | cons t rest' =>
    rw [unaryOperator]
    split
    · next op hop => simp [hop]
    · next hop => simp [hop]

/-! ### Levels -/

/-- Operands joined by the operators **of the given level and of tighter ones**. -/
def levelsFrom (level : Nat) (operand : Parser Expr) : Parser Expr :=
  (List.range' level (InfixOp.levelCount - level)).foldr infixLevel operand

theorem infixLevels_eq (operand : Parser Expr) : infixLevels operand = levelsFrom 0 operand := by
  rw [infixLevels, List.range_eq_range']
  rfl

theorem levelsFrom_levelCount (operand : Parser Expr) :
    levelsFrom InfixOp.levelCount operand = operand := by
  rw [levelsFrom, Nat.sub_self]
  rfl

theorem levelsFrom_of_lt {level : Nat} (h : level < InfixOp.levelCount) (operand : Parser Expr) :
    levelsFrom level operand = infixLevel level (levelsFrom (level + 1) operand) := by
  have hcount : InfixOp.levelCount - level = InfixOp.levelCount - (level + 1) + 1 := by omega
  rw [levelsFrom, hcount, List.range'_succ]
  rfl

theorem expression_succ (n : Nat) : expression (n + 1) = levelsFrom 0 (unary n) :=
  infixLevels_eq (unary n)

theorem unary_zero : unary 0 = unaryLevel tooDeep (expression 0) :=
  funext fun _ => rfl

theorem unary_succ (n : Nat) : unary (n + 1) = unaryLevel (unary n) (expression (n + 1)) :=
  funext fun _ => rfl

end Parser

end ScopeScript
