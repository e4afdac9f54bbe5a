import ScopeScript.Proofs.FirstError

/-!
# Where nesting becomes too deep

When a reader gives up because nesting is too deep, **it has taken a token for each level that it
had**, and the end of the input is not among them. So the token that it has come to is one of the
list, and it is the one that the error points at; and a list of tokens can always be read with more
levels than it has tokens.

The statement is one about single readers (`ScopeScript.Parser.Deepens`) and composes along their
steps. What the parts before have taken is known from what they have read: a phrase takes at least
one token (`ScopeScript.Derives.takes`).
-/

namespace ScopeScript

theorem Takes.mono {k k' : Nat} {ts rest : List Token} (h : Takes k ts rest) (hle : k' ≤ k) :
    Takes k' ts rest := by
  obtain ⟨taken, heq, hk, hend⟩ := h
  exact ⟨taken, heq, Nat.le_trans hle hk, hend⟩

namespace Parser

/-- **Where the reader finds nesting too deep**, it has taken so many tokens at the least, none of
which is the end of the input, and the error points at the token that it has come to. -/
def Deepens {α : Type} (k : Nat) (p : Parser α) (ts : List Token) : Prop :=
  ∀ span rest, p ts = (.error (.nestedTooDeep span), rest) →
    Takes k ts rest ∧ span = (rest.head?.map Token.span).getD .none

/-- The reader **never finds nesting too deep**. -/
def Flat {α : Type} (p : Parser α) : Prop :=
  ∀ ts span rest, p ts ≠ (.error (.nestedTooDeep span), rest)

variable {α β : Type} {p : Parser α} {f : α → Parser β} {ts rest : List Token} {i j k n : Nat}

namespace Deepens

theorem of_flat (h : Flat p) : Deepens k p ts :=
  fun span rest heq => absurd heq (h ts span rest)

theorem tooDeep : Deepens 0 (Parser.tooDeep : Parser α) ts := by
  rintro _ _ ⟨⟩
  exact ⟨.none ts, rfl⟩

/-- One reader **after the other**: what the first takes counts for the second. -/
theorem bind (h : Deepens k p ts)
    (hf : ∀ a mid, p ts = (.ok a, mid) → Takes j ts mid ∧ Deepens i (f a) mid) (hk : k ≤ i + j) :
    Deepens k (p >>= f) ts := by
  intro span rest heq
  rcases hp : p ts with ⟨r, mid⟩
  cases r with
  | ok a =>
    rw [bind_apply_of_ok hp] at heq
    obtain ⟨htakes, hdeepens⟩ := hf a mid hp
    obtain ⟨htakes', hspan⟩ := hdeepens span rest heq
    exact ⟨(htakes.trans htakes').mono hk, hspan⟩
  | error e =>
    rw [bind_apply_of_error hp] at heq
    cases heq
    exact h span rest hp

/-- A reader **before the end** of a rule. -/
theorem bind_pure (h : Deepens k p ts) (g : α → β) : Deepens k (do return g (← p)) ts := by
  intro span rest heq
  rcases hp : p ts with ⟨r, mid⟩
  cases r with
  | ok a =>
    rw [bind_apply_of_ok hp] at heq
    cases heq
  | error e =>
    rw [bind_apply_of_error hp] at heq
    cases heq
    exact h span rest hp

end Deepens

/-! ### Single tokens -/

theorem flat_pure (a : α) : Flat (pure a : Parser α) :=
  nofun

theorem flat_mismatch (t : Token) (expected : Expected) :
    Flat (fail (mismatch t expected) : Parser α) := by
  intro ts span rest h
  rw [fail, mismatch] at h
  split at h <;> cases h

theorem flat_token (expected : Expected) : Flat (token expected) := by
  rintro (_ | _) _ _ ⟨⟩

theorem flat_peek : Flat peek :=
  nofun

theorem flat_atEnd : Flat atEnd := by
  rintro (_ | _) _ _ ⟨⟩

theorem flat_accept (kind : Token.Kind) : Flat (accept kind) := by
  rintro (_ | ⟨t, ts⟩) _ _ h
  · cases h
  · rw [accept] at h
    split at h <;> cases h

theorem flat_infixAt (level : Nat) : Flat (infixAt level) := by
  rintro (_ | ⟨t, ts⟩) _ _ h
  · cases h
  · rw [infixAt] at h
    split at h
    · split at h <;> cases h
    · cases h

theorem flat_unaryOperator : Flat unaryOperator := by
  rintro (_ | ⟨t, ts⟩) _ _ h
  · cases h
  · rw [unaryOperator] at h
    split at h <;> cases h

theorem Flat.bind (h : Flat p) (hf : ∀ a, Flat (f a)) : Flat (p >>= f) := by
  intro ts span rest heq
  rcases hp : p ts with ⟨r, mid⟩
  cases r with
  | ok a =>
    rw [bind_apply_of_ok hp] at heq
    exact hf a mid span rest heq
  | error e =>
    rw [bind_apply_of_error hp] at heq
    cases heq
    exact h ts span rest hp

theorem flat_expect (kind : Token.Kind) (expected : Expected) : Flat (expect kind expected) := by
  refine (flat_token expected).bind fun t => ?_
  split
  · exact flat_pure _
  · exact flat_mismatch t expected

theorem flat_identifier (expected : Expected) : Flat (identifier expected) := by
  refine (flat_token expected).bind fun t => ?_
  split
  · exact flat_pure _
  · exact flat_mismatch t expected

namespace Deepens

variable {kind : Token.Kind} {span : Span}

/-- A token **of a known kind** is taken first. -/
theorem token_bind {f : Token → Parser β} (expected : Expected) (hkind : kind ≠ .endOfInput)
    (h : Deepens k (f ⟨kind, span⟩) ts) :
    Deepens (k + 1) (token expected >>= f) (⟨kind, span⟩ :: ts) := by
  refine (of_flat (flat_token expected)).bind (fun t mid ht => ?_) (Nat.le_refl _)
  obtain ⟨rfl, rfl⟩ := List.cons.inj (token_eq_ok.mp ht)
  exact ⟨.one hkind, h⟩

/-- A token of one kind is taken first. -/
theorem expect_bind {f : Span → Parser β} (expected : Expected) (hkind : kind ≠ .endOfInput)
    (h : ∀ span rest, Deepens k (f span) rest) :
    Deepens (k + 1) (expect kind expected >>= f) ts := by
  refine (of_flat (flat_expect kind expected)).bind (fun span mid hspan => ?_) (Nat.le_refl _)
  rw [expect_eq_ok.mp hspan]
  exact ⟨.one hkind, h span mid⟩

/-- A name is taken first. -/
theorem identifier_bind {f : String × Span → Parser β} (expected : Expected)
    (h : ∀ name rest, Deepens k (f name) rest) :
    Deepens (k + 1) (identifier expected >>= f) ts := by
  refine (of_flat (flat_identifier expected)).bind (fun name mid hname => ?_) (Nat.le_refl _)
  rw [identifier_eq_ok.mp hname]
  exact ⟨.one nofun, h name mid⟩

/-- A part **that may be left out** begins with a token of its own. -/
theorem accept_bind {f : Bool → Parser β} (hkind : kind ≠ .endOfInput)
    (htrue : ∀ rest, Deepens k (f true) rest) (hfalse : Deepens k (f false) ts) :
    Deepens k (accept kind >>= f) ts := by
  refine (of_flat (flat_accept kind)).bind (j := 0) (fun found mid hfound => ?_) (Nat.le_refl _)
  cases found with
  | true =>
    obtain ⟨span, rfl⟩ : ∃ span, ts = ⟨kind, span⟩ :: mid := by simpa using hfound
    exact ⟨(Takes.one hkind).mono (Nat.zero_le _), htrue mid⟩
  | false =>
    obtain ⟨-, rfl⟩ : ¬ NextIs kind ts ∧ ts = mid := by simpa using hfound
    exact ⟨.none _, hfalse⟩

/-- A phrase is read first, **which is not counted**. -/
theorem phrase_bind (h : Deepens k p ts)
    (hf : ∀ a mid, p ts = (.ok a, mid) → (∃ size, Takes size ts mid) ∧ Deepens k (f a) mid) :
    Deepens k (p >>= f) ts := by
  refine h.bind (j := 0) (fun a mid ha => ?_) (Nat.le_refl _)
  obtain ⟨⟨size, htakes⟩, hdeepens⟩ := hf a mid ha
  exact ⟨htakes.mono (Nat.zero_le _), hdeepens⟩

theorem mono (h : Deepens k p ts) (hle : i ≤ k) : Deepens i p ts :=
  fun span rest heq => ⟨(h span rest heq).1.mono hle, (h span rest heq).2⟩

end Deepens

/-! ### Lists of items -/

section Items

variable {item : Parser α}

theorem commaSeparated_deepens (hitem : ∀ ts, Deepens k item ts)
    (htakes : ∀ ts x rest, item ts = (.ok x, rest) → ∃ size, Takes size ts rest) (turns : Nat) :
    Deepens k (commaSeparated item turns) ts := by
  induction turns generalizing ts with
  | zero => exact (hitem ts).bind_pure _
  | succ turns ih =>
    refine (hitem ts).phrase_bind fun x mid hx => ⟨htakes ts x mid hx, ?_⟩
    exact .accept_bind nofun (fun rest => ih.bind_pure _) (.of_flat (flat_pure _))

theorem commaList_deepens (hitem : ∀ ts, Deepens k item ts)
    (htakes : ∀ ts x rest, item ts = (.ok x, rest) → ∃ size, Takes size ts rest) :
    Deepens k (commaList item) ts := by
  by_cases hnext : NextIs (.mark .rightParen) ts
  · intro span rest heq
    rw [commaList_nil hnext] at heq
    cases heq
  · intro span rest heq
    rw [commaList_of_not_next hnext] at heq
    exact commaSeparated_deepens hitem htakes ts.length span rest heq

end Items

/-! ### Expressions -/

section Expressions

variable {p operand : Parser Expr}

theorem SoundExpression.takes (hsound : SoundExpression n p) (ts : List Token) (e : Expr)
    (rest : List Token) (h : p ts = (.ok e, rest)) : ∃ size, Takes size ts rest :=
  ⟨_, (hsound h).takes⟩

/-- The only primary expression that nests is that **in parentheses**. -/
theorem primary_deepens (hp : ∀ ts, Deepens k p ts) (hsound : SoundExpression n p) :
    Deepens (k + 1) (primary p) ts := by
  cases ts with
  | nil => rintro _ _ ⟨⟩
  | cons t ts =>
    obtain ⟨kind, span⟩ := t
    have hmismatch : primary p (⟨kind, span⟩ :: ts) = fail (mismatch ⟨kind, span⟩ .operand) ts →
        Deepens (k + 1) (primary p) (⟨kind, span⟩ :: ts) := by
      intro heq span' rest h
      exact absurd (heq.symm.trans h) (flat_mismatch _ _ ts span' rest)
    cases kind with
    | number | text => rintro _ _ ⟨⟩
    | identifier id =>
      refine .token_bind _ nofun ?_
      simp only
      split <;>
        first | exact .of_flat (flat_pure _) | exact .of_flat (flat_mismatch _ _) | contradiction
    | keyword w =>
      cases w with
      | print => rintro _ _ ⟨⟩
      | _ => exact hmismatch rfl
    | mark m =>
      cases m with
      | leftParen =>
        refine .token_bind _ nofun ((hp ts).phrase_bind fun inner mid hinner => ?_)
        refine ⟨hsound.takes ts inner mid hinner, .of_flat ?_⟩
        exact (flat_expect _ _).bind fun close => flat_pure _
      | _ => exact hmismatch rfl
    | operator | endOfInput => exact hmismatch rfl

theorem calls_deepens (hp : ∀ ts, Deepens k p ts) (hsound : SoundExpression n p) (turns : Nat)
    (callee : Expr) : Deepens k (calls p turns callee) ts := by
  induction turns generalizing callee ts with
  | zero => exact .of_flat (flat_pure _)
  | succ turns ih =>
    refine .accept_bind nofun (fun rest => ?_) (.of_flat (flat_pure _))
    refine (commaList_deepens hp hsound.takes).phrase_bind fun args mid hargs =>
      ⟨⟨_, (arguments_sound hsound hargs).takes⟩, ?_⟩
    refine Deepens.mono (.expect_bind _ ?_ fun span rest => ih _) (Nat.le_succ k)
    nofun

/-- A unary operator **takes a token** before its operand. -/
theorem unaryLevel_deepens (hoperand : ∀ ts, Deepens k operand ts) (hp : ∀ ts, Deepens k p ts)
    (hsound : SoundExpression n p) (ts : List Token) :
    Deepens (k + 1) (unaryLevel operand p) ts := by
  have hprimary : (∀ t ∈ ts.head?, t.kind.unaryOp? = none) →
      Deepens (k + 1) (unaryLevel operand p) ts := by
    intro hnone span rest h
    rw [unaryLevel, bind_apply_of_ok (unaryOperator_eq_none.mpr ⟨hnone, rfl⟩)] at h
    refine (primary_deepens hp hsound).bind (i := k) (j := 1) (fun callee mid hcallee => ?_)
      (Nat.le_refl _) span rest h
    exact ⟨(primary_sound hsound hcallee).takes, calls_deepens hp hsound mid.length callee⟩
  cases ts with
  | nil => exact hprimary (by simp)
  | cons t ts =>
    obtain ⟨kind, span⟩ := t
    cases hop : kind.unaryOp? with
    | none => exact hprimary fun t ht => Option.some.inj ht ▸ hop
    | some op =>
      have hread : unaryOperator (⟨kind, span⟩ :: ts) = (.ok (some (op, span)), ts) :=
        unaryOperator_eq_some.mpr ⟨kind, rfl, hop⟩
      refine (Deepens.of_flat flat_unaryOperator).bind (i := k) (j := 1)
        (fun found mid hfound => ?_) (Nat.le_refl _)
      rw [hread] at hfound
      cases hfound
      exact ⟨.one (Token.Kind.ne_endOfInput_of_unaryOp? hop), (hoperand ts).bind_pure _⟩

theorem chain_deepens {l : Nat} (hoperand : ∀ ts, Deepens k operand ts)
    (hsound : SoundLevel n (l + 1) operand) (turns : Nat) (left : Expr) :
    Deepens k (chain operand l turns left) ts := by
  induction turns generalizing left ts with
  | zero => exact .of_flat (flat_pure _)
  | succ turns ih =>
    refine (Deepens.of_flat (flat_infixAt l)).phrase_bind fun found mid hfound => ?_
    cases found with
    | none =>
      obtain ⟨-, rfl⟩ := infixAt_eq_none.mp hfound
      exact ⟨⟨0, .none _⟩, .of_flat (flat_pure _)⟩
    | some op =>
      obtain ⟨kind, span, rfl, hop, -⟩ := infixAt_eq_some.mp hfound
      refine ⟨⟨1, .one (Token.Kind.ne_endOfInput_of_infixOp? hop)⟩, ?_⟩
      exact (hoperand mid).phrase_bind fun right mid hright =>
        ⟨⟨_, (hsound hright).1.takes⟩, ih _⟩

theorem levelsFrom_deepens (hoperand : ∀ ts, Deepens k operand ts)
    (hsound : SoundLevel n InfixOp.levelCount operand) :
    ∀ m l, l + m = InfixOp.levelCount → ∀ ts, Deepens k (levelsFrom l operand) ts
  | 0, l, hl => by
    obtain rfl : l = InfixOp.levelCount := hl
    rw [levelsFrom_levelCount]
    exact hoperand
  | m + 1, l, hl => fun ts => by
    have hnext := levelsFrom_deepens hoperand hsound m (l + 1) (by omega)
    have hnextSound := levelsFrom_sound hsound m (l + 1) (by omega)
    rw [levelsFrom_of_lt (by omega)]
    exact (hnext ts).phrase_bind fun left mid hleft =>
      ⟨⟨_, (hnextSound hleft).1.takes⟩, chain_deepens hnext hnextSound mid.length left⟩

theorem expression_succ_deepens (h : ∀ ts, Deepens n (unary n) ts) (ts : List Token) :
    Deepens n (expression (n + 1)) ts := by
  rw [expression_succ]
  refine levelsFrom_deepens h (n := n) (fun ts e rest he => ?_) InfixOp.levelCount 0 rfl ts
  obtain ⟨hderives, hclosed⟩ := unary_sound n he
  exact ⟨.tightest hderives, hclosed⟩

/-- Each level of a unary operand is **paid for by a token**. -/
theorem unary_deepens : ∀ n ts, Deepens n (unary n) ts
  | 0, ts => by
    rw [unary_zero]
    exact (unaryLevel_deepens (fun _ => .tooDeep) (fun _ => .tooDeep)
      (expression_sound 0) ts).mono (Nat.zero_le _)
  | n + 1, ts => by
    rw [unary_succ]
    exact unaryLevel_deepens (unary_deepens n) (expression_succ_deepens (unary_deepens n))
      (expression_sound (n + 1)) ts

/-- Each level of an expression but the first is **paid for by a token**. -/
theorem expression_deepens : ∀ n ts, Deepens (n - 1) (expression n) ts
  | 0, _ => .tooDeep
  | n + 1, ts => expression_succ_deepens (unary_deepens n) ts

end Expressions

/-! ### Statements -/

section Statements

variable {p : Parser Expr} {q : Parser Block}

theorem SoundBlock.takes (hsound : SoundBlock n q) (ts : List Token) (b : Block)
    (rest : List Token) (h : q ts = (.ok b, rest)) : ∃ size, Takes size ts rest :=
  ⟨_, (hsound h).takes⟩

theorem declaration_deepens (hp : ∀ ts, Deepens k p ts) {span : Span} :
    Deepens k (declaration p) (⟨.keyword .declare, span⟩ :: ts) := by
  refine Deepens.mono (.token_bind _ nofun (.identifier_bind _ fun name rest => ?_))
    (Nat.le_add_right k 2)
  exact .accept_bind nofun (fun rest => (hp rest).bind_pure _) (.of_flat (flat_pure _))

theorem printing_deepens (hp : ∀ ts, Deepens k p ts) {span : Span} :
    Deepens k (printing p) (⟨.keyword .print, span⟩ :: ts) :=
  Deepens.mono (.token_bind _ nofun ((hp ts).bind_pure _)) (Nat.le_succ k)

theorem conditional_deepens (hp : ∀ ts, Deepens k p ts) (hpsound : SoundExpression n p)
    (hq : ∀ ts, Deepens k q ts) (hqsound : SoundBlock n q) {span : Span} :
    Deepens k (conditional p q) (⟨.keyword .ifK, span⟩ :: ts) := by
  refine Deepens.mono (.token_bind _ nofun ?_) (Nat.le_succ k)
  refine (hp ts).phrase_bind fun test rest htest => ⟨hpsound.takes _ _ _ htest, ?_⟩
  refine (hq rest).phrase_bind fun b rest hb => ⟨hqsound.takes _ _ _ hb, ?_⟩
  exact .accept_bind nofun (fun rest => (hq rest).bind_pure _) (.of_flat (flat_pure _))

theorem loop_deepens (hp : ∀ ts, Deepens k p ts) (hpsound : SoundExpression n p)
    (hq : ∀ ts, Deepens k q ts) {span : Span} :
    Deepens k (loop p q) (⟨.keyword .whileK, span⟩ :: ts) := by
  refine Deepens.mono (.token_bind _ nofun ?_) (Nat.le_succ k)
  refine (hp ts).phrase_bind fun test rest htest => ⟨hpsound.takes _ _ _ htest, ?_⟩
  exact (hq rest).bind_pure _

theorem function_deepens (hq : ∀ ts, Deepens k q ts) {span : Span} :
    Deepens k (function q) (⟨.keyword .function, span⟩ :: ts) := by
  have hname : ∀ ts, Deepens k (identifier .parameterName) ts := fun _ =>
    .of_flat (flat_identifier _)
  refine Deepens.mono (.token_bind _ nofun (.identifier_bind _ fun name rest => ?_))
    (Nat.le_add_right k 2)
  refine Deepens.mono (.expect_bind _ ?_ fun opening rest => ?_) (Nat.le_succ k)
  · nofun
  refine (commaList_deepens hname fun ts name rest h => ⟨1, ?_⟩).phrase_bind
    fun params rest hparams => ⟨⟨_, (parameters_sound (n := 0) hparams).takes⟩, ?_⟩
  · rw [identifier_eq_ok.mp h]
    exact .one nofun
  refine Deepens.mono (.expect_bind _ ?_ fun closing rest => (hq rest).bind_pure _) (Nat.le_succ k)
  nofun

theorem exit_deepens (hp : ∀ ts, Deepens k p ts) {span : Span} :
    Deepens k (exit p) (⟨.keyword .returnK, span⟩ :: ts) :=
  Deepens.mono (.token_bind _ nofun ((hp ts).bind_pure _)) (Nat.le_succ k)

theorem bareStatement_deepens (hp : ∀ ts, Deepens k p ts) (hpsound : SoundExpression n p)
    (hq : ∀ ts, Deepens k q ts) (hqsound : SoundBlock n q) (ts : List Token) :
    Deepens k (bareStatement p q) ts := by
  cases ts with
  | nil => exact (hp []).bind_pure Stmt.expression
  | cons t ts =>
    obtain ⟨kind, span⟩ := t
    have hexpression : ∀ ts, Deepens k (do return Stmt.expression (← p) : Parser Stmt) ts :=
      fun ts => (hp ts).bind_pure _
    cases kind with
    | keyword w =>
      cases w with
      | declare => exact declaration_deepens hp
      | print => exact printing_deepens hp
      | ifK => exact conditional_deepens hp hpsound hq hqsound
      | whileK => exact loop_deepens hp hpsound hq
      | function => exact function_deepens hq
      | returnK => exact exit_deepens hp
      | _ => exact hexpression _
    | mark m =>
      cases m with
      | leftBrace => exact (hq _).bind_pure Stmt.block
      | _ => exact hexpression _
    | _ => exact hexpression _

theorem statementOf_deepens (hp : ∀ ts, Deepens k p ts) (hpsound : SoundExpression n p)
    (hq : ∀ ts, Deepens k q ts) (hqsound : SoundBlock n q) (ts : List Token) :
    Deepens k (statementOf p q) ts := by
  refine (bareStatement_deepens hp hpsound hq hqsound ts).phrase_bind fun s rest hs =>
    ⟨⟨_, (bareStatement_sound hpsound hqsound hs).takes⟩, .of_flat ?_⟩
  exact (flat_accept _).bind fun _ => flat_pure _

variable {r : Parser Stmt}

theorem statementsInBlock_deepens (hr : ∀ ts, Deepens k r ts) (hsound : SoundStatement n r)
    (turns : Nat) : Deepens k (statementsInBlock r turns) ts := by
  induction turns generalizing ts with
  | zero => rintro _ _ ⟨⟩
  | succ turns ih =>
    refine (Deepens.of_flat flat_peek).phrase_bind fun kind mid hkind => ?_
    obtain ⟨-, rfl⟩ := peek_eq_ok.mp hkind
    refine ⟨⟨0, .none _⟩, ?_⟩
    split
    · exact .of_flat (flat_pure _)
    refine (Deepens.of_flat flat_atEnd).phrase_bind fun ended mid hended => ?_
    obtain ⟨-, rfl⟩ := atEnd_eq_ok.mp hended
    refine ⟨⟨0, .none _⟩, ?_⟩
    split
    · rintro _ _ ⟨⟩
    exact (hr ts).phrase_bind fun s mid hs => ⟨⟨_, (hsound hs).takes⟩, ih.bind_pure _⟩

/-- A block takes **its brace** before its statements. -/
theorem braced_deepens (hr : ∀ ts, Deepens k r ts) (hsound : SoundStatement n r)
    (ts : List Token) : Deepens (k + 1) (braced r) ts := by
  refine .expect_bind _ ?_ fun opening rest => ?_
  · nofun
  have hstatements : Deepens k (turns (statementsInBlock r)) rest :=
    statementsInBlock_deepens hr hsound rest.length
  refine hstatements.phrase_bind fun ss mid hss =>
    ⟨⟨_, (statementsInBlock_sound hsound _ hss).takes⟩, .of_flat ?_⟩
  exact (flat_expect _ _).bind fun _ => flat_pure _

/-- Each level of a block but the first is **paid for by a token**. -/
theorem block_deepens : ∀ n ts, Deepens (n - 1) (block n) ts
  | 0, _ => .tooDeep
  | 1, ts =>
    (braced_deepens (k := 0) (statementOf_deepens (expression_deepens 0) (expression_sound 0)
      (block_deepens 0) (block_sound 0)) (statement_sound 0) ts).mono (Nat.zero_le _)
  | n + 2, ts =>
    braced_deepens (statementOf_deepens (expression_deepens (n + 1)) (expression_sound (n + 1))
      (block_deepens (n + 1)) (block_sound (n + 1))) (statement_sound (n + 1)) ts

theorem statement_deepens (n : Nat) (ts : List Token) : Deepens (n - 1) (statement n) ts :=
  statementOf_deepens (expression_deepens n) (expression_sound n) (block_deepens n) (block_sound n)
    ts

theorem statementsToEnd_deepens (hr : ∀ ts, Deepens k r ts) (hsound : SoundStatement n r)
    (turns : Nat) : Deepens k (statementsToEnd r turns) ts := by
  induction turns generalizing ts with
  | zero => exact .of_flat (flat_pure _)
  | succ turns ih =>
    refine (Deepens.of_flat flat_atEnd).phrase_bind fun ended mid hended => ?_
    obtain ⟨-, rfl⟩ := atEnd_eq_ok.mp hended
    refine ⟨⟨0, .none _⟩, ?_⟩
    split
    · exact .of_flat (flat_pure _)
    exact (hr ts).phrase_bind fun s mid hs => ⟨⟨_, (hsound hs).takes⟩, ih.bind_pure _⟩

end Statements

end Parser

/-- **The error for nesting too deep points at a token of the list.** -/
theorem mem_of_parse_nestedTooDeep {body : List Token} {last : Token} {span : Span}
    (hlast : last.kind = .endOfInput) (h : parse (body ++ [last]) = .error (.nestedTooDeep span)) :
    ∃ t ∈ body ++ [last], t.span = span := by
  have hdeepens : Parser.Deepens (nestingLimit - 1) Parser.program (body ++ [last]) :=
    (Parser.statementsToEnd_deepens (Parser.statement_deepens nestingLimit)
      (Parser.statement_sound nestingLimit) (body ++ [last]).length).bind_pure Program.mk
  rcases hr : Parser.program (body ++ [last]) with ⟨r, rest⟩
  rw [parse, hr] at h
  obtain rfl : r = .error (.nestedTooDeep span) := h
  obtain ⟨⟨taken, heq, -, htaken⟩, rfl⟩ := hdeepens span rest hr
  cases rest with
  | nil =>
    -- the end of the input would have been taken
    have hmem : last ∈ taken := by
      rw [List.append_nil] at heq
      exact heq ▸ List.mem_append_right body (List.mem_singleton_self last)
    exact absurd hlast (htaken last hmem)
  | cons t rest => exact ⟨t, heq ▸ List.mem_append_right taken (List.mem_cons_self ..), rfl⟩

end ScopeScript
