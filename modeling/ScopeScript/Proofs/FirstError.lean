import ScopeScript.Proofs.ParserComplete
import ScopeScript.Proofs.Prediction

/-!
# The first wrong token

**Errors are reported at the first token that does not fit** (`ScopeScript.parse_error_first`): what
stands before the reported token can be completed to a program, with the token it cannot; and where
the input is said to end too early, it can be completed but is no program yet.

The parser reads as one reads with goals: each of its readers takes the tokens that meet certain
goals (`ScopeScript.Parser.Follows`), and fails at a token exactly where no token of its kind may
come next. So a statement about all states that the parser can be in is one about stacks of goals.
-/

namespace ScopeScript

/-! ### Judging tokens -/

/-- What becomes of tokens that are **read with goals**. -/
inductive Judgement where
  /-- Nothing more must come. -/
  | complete
  /-- Something is still to come at the end of the input. -/
  | cutShort
  /-- A token may not come next. -/
  | misplaced (found : Token)

namespace Goal

/-- What becomes of tokens, **up to the end of the input**. -/
def judge : List Goal → List Token → Judgement
  | gs, [] => if gs.all mayEnd then .complete else .cutShort
  | gs, t :: ts =>
    if t.kind = .endOfInput then if gs.all mayEnd then .complete else .cutShort
    else match advance gs t.kind with
      | some left => judge left ts
      | none => .misplaced t

variable {g : Goal} {gs left : List Goal} {k : Token.Kind} {span : Span} {ts rest body : List Token}

theorem judge_atEnd (h : Parser.AtEnd ts) :
    judge gs ts = if gs.all mayEnd then .complete else .cutShort := by
  cases ts with
  | nil => rw [judge]
  | cons t ts => rw [judge, if_pos (h t rfl)]

/-- The token that comes next **meets the goal on top**. -/
theorem judge_step (h : g.step k = some left) :
    judge (g :: gs) (⟨k, span⟩ :: ts) = judge (left ++ gs) ts := by
  have hk : k ≠ .endOfInput := by
    rintro rfl
    exact absurd (g.step_endOfInput.symm.trans h) nofun
  rw [judge, if_neg hk, advance_of_step h]

/-- The goal on top is **left out**. -/
theorem judge_optional (hg : g.optional = true) (h : ∀ t ∈ ts.head?, g.step t.kind = none) :
    judge (g :: gs) ts = judge gs ts := by
  have hend : (g :: gs).all mayEnd = gs.all mayEnd := by
    have hg' : g.mayEnd = true := by cases g <;> trivial
    rw [List.all_cons, hg', Bool.true_and]
  cases ts with
  | nil => rw [judge, judge, hend]
  | cons t ts => rw [judge, judge, advance_of_optional hg (h t rfl), hend]

/-- The token that comes next **does not meet the goal on top**, which may not be left out. -/
theorem judge_misplaced (hk : k ≠ .endOfInput) (hg : g.optional = false) (h : g.step k = none) :
    judge (g :: gs) (⟨k, span⟩ :: ts) = .misplaced ⟨k, span⟩ := by
  rw [judge, if_neg hk, advance, h]
  simp [hg]

/-- Something is still to come **at the end of the input**. -/
theorem judge_cutShort (hg : g.mayEnd = false) (h : Parser.AtEnd ts) :
    judge (g :: gs) ts = .cutShort := by
  rw [judge_atEnd h, List.all_cons, hg]
  rfl

/-- A misplaced token is **the first that may not come next**. -/
theorem of_judge_misplaced {found : Token} (hbody : ∀ t ∈ body, t.kind ≠ .endOfInput)
    (h : judge gs (body ++ [⟨.endOfInput, span⟩]) = .misplaced found) :
    ∃ before after left, body = before ++ found :: after ∧
      advanceAll gs (before.map Token.kind) = some left ∧ advance left found.kind = none := by
  induction body generalizing gs with
  | nil =>
    rw [List.nil_append, judge_atEnd fun t ht => by rw [← Option.some.inj ht]] at h
    split at h <;> contradiction
  | cons t body ih =>
    rw [List.cons_append, judge, if_neg (hbody t (List.mem_cons_self ..))] at h
    cases hadvance : advance gs t.kind with
    | none =>
      rw [hadvance] at h
      cases h
      exact ⟨[], body, gs, rfl, rfl, hadvance⟩
    | some left =>
      rw [hadvance] at h
      obtain ⟨before, after, left', rfl, hall, hnone⟩ :=
        ih (fun t ht => hbody t (List.mem_cons_of_mem _ ht)) h
      refine ⟨t :: before, after, left', rfl, ?_, hnone⟩
      rw [List.map_cons, advanceAll, hadvance]
      exact hall

/-- Where the input is cut short, all its tokens were taken and **something is still to come**. -/
theorem of_judge_cutShort (hbody : ∀ t ∈ body, t.kind ≠ .endOfInput)
    (h : judge gs (body ++ [⟨.endOfInput, span⟩]) = .cutShort) :
    ∃ left, advanceAll gs (body.map Token.kind) = some left ∧ left.all mayEnd = false := by
  induction body generalizing gs with
  | nil =>
    rw [List.nil_append, judge_atEnd fun t ht => by rw [← Option.some.inj ht]] at h
    split at h
    · contradiction
    · next hend => exact ⟨gs, rfl, by simpa using hend⟩
  | cons t body ih =>
    rw [List.cons_append, judge, if_neg (hbody t (List.mem_cons_self ..))] at h
    cases hadvance : advance gs t.kind with
    | none =>
      rw [hadvance] at h
      contradiction
    | some left =>
      rw [hadvance] at h
      obtain ⟨left', hall, hend⟩ := ih (fun t ht => hbody t (List.mem_cons_of_mem _ ht)) h
      refine ⟨left', ?_, hend⟩
      rw [List.map_cons, advanceAll, hadvance]
      exact hall

end Goal

/-! ### Readers that follow the goals -/

namespace Parser

open Goal

/-- What a reader gives **agrees with the verdict** on the tokens: it fails where the verdict says
so; if it succeeds, the verdict is that on the tokens that are left. Of nesting too deep nothing is
said. -/
inductive Agrees {α : Type} (verdict : Judgement) (next : List Token → Judgement) :
    Except ParseError α × List Token → Prop
  /-- The reader succeeds. -/
  | ok {a : α} {rest : List Token} (h : verdict = next rest) : Agrees verdict next (.ok a, rest)
  /-- The reader finds a token that may not come next. -/
  | misplaced {found : Token} {expected : Expected} {rest : List Token}
    (h : verdict = .misplaced found) :
    Agrees verdict next (.error (.misplaced found expected), rest)
  /-- The reader finds the end of the input. -/
  | cutShort {expected : Expected} {rest : List Token} (h : verdict = .cutShort) :
    Agrees verdict next (.error (.cutShort expected), rest)
  /-- Nesting is too deep. -/
  | tooDeep {span : Span} {rest : List Token} :
    Agrees verdict next (.error (.nestedTooDeep span), rest)

theorem Agrees.of_eq {α : Type} {verdict verdict' : Judgement} {next : List Token → Judgement}
    {r : Except ParseError α × List Token} (h : Agrees verdict' next r)
    (heq : verdict = verdict') : Agrees verdict next r :=
  heq ▸ h

/-- **The reader follows the goals**: from these tokens it takes what meets goals of `before`, so
that those of `after` are left, whatever goals are below. -/
def Follows {α : Type} (before after : List Goal) (p : Parser α) (ts : List Token) : Prop :=
  ∀ below, Agrees (judge (before ++ below) ts) (judge (after ++ below)) (p ts)

variable {α β : Type} {p : Parser α} {f : α → Parser β} {ts rest : List Token}
  {before mid after : List Goal} {g : Goal} {gs left : List Goal} {kind : Token.Kind} {span : Span}

namespace Follows

/-- One reader **after the other**. -/
theorem bind (h : Follows before mid p ts)
    (hf : ∀ a rest, p ts = (.ok a, rest) → Follows mid after (f a) rest) :
    Follows before after (p >>= f) ts := by
  intro below
  have hp := h below
  rcases hr : p ts with ⟨r, rest⟩
  rw [hr] at hp
  cases hp with
  | ok heq =>
    rw [bind_apply_of_ok hr, heq]
    exact hf _ _ hr below
  | misplaced heq =>
    rw [bind_apply_of_error hr]
    exact .misplaced heq
  | cutShort heq =>
    rw [bind_apply_of_error hr]
    exact .cutShort heq
  | tooDeep =>
    rw [bind_apply_of_error hr]
    exact .tooDeep

theorem pure (a : α) (ts : List Token) : Follows gs gs (Pure.pure a) ts :=
  fun _ => .ok rfl

theorem tooDeep : Follows before after (α := α) Parser.tooDeep ts :=
  fun _ => .tooDeep

/-- The goals may be **exchanged beforehand** for goals that judge alike. -/
theorem of_judge_eq (h : Follows mid after p ts)
    (heq : ∀ below, judge (before ++ below) ts = judge (mid ++ below) ts) :
    Follows before after p ts := fun below => by
  rw [heq]
  exact h below

/-- The goals may be **exchanged afterwards** for goals that judge alike. -/
theorem to_judge_eq (h : Follows before mid p ts)
    (heq : ∀ a rest, p ts = (.ok a, rest) →
      ∀ below, judge (mid ++ below) rest = judge (after ++ below) rest) :
    Follows before after p ts := by
  intro below
  have hp := h below
  rcases hr : p ts with ⟨r, rest⟩
  rw [hr] at hp
  cases hp with
  | ok hv => exact .ok (hv.trans (heq _ _ hr below))
  | misplaced hv => exact .misplaced hv
  | cutShort hv => exact .cutShort hv
  | tooDeep => exact .tooDeep

/-- Goals below others **stay as they are**. -/
theorem below (h : Follows before after p ts) (gs : List Goal) :
    Follows (before ++ gs) (after ++ gs) p ts := by
  intro below
  have hp := h (gs ++ below)
  rw [← List.append_assoc, ← List.append_assoc] at hp
  exact hp

end Follows

/-! ### Single tokens -/

/-- A token that **does not fit** is reported as it is judged. -/
theorem agrees_mismatch {next : List Token → Judgement} (t : Token) (expected : Expected)
    (hg : g.mayEnd = false) (h : g.step t.kind = none) :
    Agrees (α := α) (judge (g :: gs) (t :: ts)) next (.error (mismatch t expected), rest) := by
  rw [mismatch]
  split
  · next hk => exact .cutShort (judge_cutShort hg fun _ ht => Option.some.inj ht ▸ hk)
  · next hk =>
    have hopt : g.optional = false := by cases g <;> trivial
    exact .misplaced (judge_misplaced hk hopt h)

/-- A token **of one kind** is what meets a goal. -/
theorem follows_expect (expected : Expected) (hg : g.mayEnd = false)
    (h : g.step kind = some left) (hnone : ∀ k, k ≠ kind → g.step k = none) (ts : List Token) :
    Follows (g :: gs) (left ++ gs) (expect kind expected) ts := by
  intro below
  cases ts with
  | nil => exact .cutShort (judge_cutShort hg nofun)
  | cons t ts =>
    obtain ⟨k, span⟩ := t
    rw [expect, bind_apply_of_ok (token_eq_ok.mpr rfl)]
    by_cases hkind : k = kind
    · subst hkind
      rw [if_pos rfl]
      refine .ok ?_
      rw [List.cons_append, judge_step h, List.append_assoc]
    · rw [if_neg hkind]
      exact agrees_mismatch _ expected hg (hnone k hkind)

theorem follows_mark (m : Mark) (expected : Expected) (ts : List Token) :
    Follows (Goal.mark m :: gs) gs (expect (.mark m) expected) ts := by
  have hstep : (Goal.mark m).step (.mark m) = some [] := if_pos rfl
  have hnone : ∀ k, k ≠ .mark m → (Goal.mark m).step k = none := fun _ hk => if_neg hk
  exact follows_expect expected rfl hstep hnone ts

theorem follows_identifier (expected : Expected) (ts : List Token) :
    Follows (name :: gs) gs (identifier expected) ts := by
  intro below
  cases ts with
  | nil => exact .cutShort (judge_cutShort rfl nofun)
  | cons t ts =>
    obtain ⟨k, span⟩ := t
    rw [identifier, bind_apply_of_ok (token_eq_ok.mpr rfl)]
    cases k with
    | identifier id =>
      have hstep : (name : Goal).step (.identifier id) = some [] := rfl
      exact .ok (judge_step hstep)
    | _ => exact agrees_mismatch _ expected rfl rfl

/-- **A part that may be left out** is read if its first token is next. -/
theorem follows_accept {f : Bool → Parser β} (hg : g.optional = true)
    (h : g.step kind = some left) (hnone : ∀ k, k ≠ kind → g.step k = none)
    (htrue : ∀ rest, Follows (left ++ gs) after (f true) rest)
    (hfalse : Follows gs after (f false) ts) : Follows (g :: gs) after (accept kind >>= f) ts := by
  rcases Classical.em (NextIs kind ts) with ⟨span, rest, rfl⟩ | hnot
  · intro below
    rw [bind_apply_of_ok (accept_next kind span), List.cons_append, judge_step h,
      ← List.append_assoc]
    exact htrue rest below
  · intro below
    have hnone' : ∀ t ∈ ts.head?, g.step t.kind = none := by
      intro t ht
      refine hnone _ fun hkind => hnot (head?_kind_eq_some.mp ?_)
      rw [Option.mem_def.mp ht, Option.map_some, hkind]
    rw [bind_apply_of_ok (accept_of_not_next hnot), List.cons_append, judge_optional hg hnone']
    exact hfalse below

/-! ### Lists of items -/

section Items

variable {item : Parser α} {list : Items}

/-- Goals that go on alike with the token that comes next **judge alike**. -/
theorem judge_eq {g' : Goal} {gs' : List Goal}
    (hend : (g :: gs).all mayEnd = (g' :: gs').all mayEnd)
    (h : ∀ t ∈ ts.head?, advance (g :: gs) t.kind = advance (g' :: gs') t.kind) :
    judge (g :: gs) ts = judge (g' :: gs') ts := by
  cases ts with
  | nil => rw [judge, judge, hend]
  | cons t ts => rw [judge, judge, hend, h t rfl]

/-- Where no comma is next, the items **must be closed**. -/
theorem judge_moreItems (h : ¬ NextIs (.mark .comma) ts) :
    judge (moreItems list :: gs) ts = judge (Goal.mark .rightParen :: gs) ts := by
  refine judge_eq rfl fun t ht => ?_
  have hne : t.kind ≠ .mark .comma := fun hk =>
    h (head?_kind_eq_some.mp (by rw [Option.mem_def.mp ht, Option.map_some, hk]))
  have hstep : (moreItems list).step t.kind = (Goal.mark .rightParen).step t.kind := by
    by_cases hclose : t.kind = .mark .rightParen
    · rw [hclose]
      rfl
    · simp [step, hclose]
  rw [advance, advance, hstep]
  rfl

/-- Where the items are not closed at once, **an item must come**. -/
theorem judge_items (h : ¬ NextIs (.mark .rightParen) ts) :
    judge (items list :: gs) ts = judge (Goal.item list :: moreItems list :: gs) ts := by
  refine judge_eq (by cases list <;> rfl) fun t ht => ?_
  have hne : t.kind ≠ .mark .rightParen := fun hk =>
    h (head?_kind_eq_some.mp (by rw [Option.mem_def.mp ht, Option.map_some, hk]))
  have hitem : (Goal.item list).step t.kind = ofItem list t.kind := by
    cases list with
    | arguments => rfl
    | parameters => cases t.kind <;> rfl
  have hopt : (Goal.item list).optional = false := by cases list <;> rfl
  have hstep : (items list).step t.kind = (ofItem list t.kind).map (· ++ [moreItems list]) := by
    simp [step]
  rw [advance, advance, hitem, hstep, hopt]
  cases ofItem list t.kind with
  | none => rfl
  | some left => simp

/-- Items **separated by commas** are read up to the closing parenthesis. -/
theorem follows_commaSeparated (hitem : ∀ ts, Follows [Goal.item list] [] item ts)
    (htakes : ∀ ts x rest, item ts = (.ok x, rest) → rest.length < ts.length) (turns : Nat)
    (hturns : ts.length ≤ turns) :
    Follows [Goal.item list, moreItems list] [Goal.mark .rightParen]
      (commaSeparated item turns) ts := by
  induction turns generalizing ts with
  | zero =>
    obtain rfl := List.eq_nil_of_length_eq_zero (Nat.le_zero.mp hturns)
    rw [commaSeparated]
    refine ((hitem []).below [moreItems list]).bind fun x rest hx => ?_
    exact absurd (htakes _ _ _ hx) (Nat.not_lt_zero _)
  | succ turns ih =>
    rw [commaSeparated]
    refine ((hitem ts).below [moreItems list]).bind fun x mid hx => ?_
    rcases Classical.em (NextIs (.mark .comma) mid) with ⟨span, rest, rfl⟩ | hnot
    · have hle : rest.length ≤ turns := by
        have hlt := htakes _ _ _ hx
        rw [List.length_cons] at hlt
        omega
      have hcomma : (moreItems list).step (.mark .comma) = some [Goal.item list, moreItems list] :=
        rfl
      intro below
      rw [bind_apply_of_ok (accept_next _ span), if_pos rfl]
      exact ((ih hle).bind (fun xs rest _ => .pure (x :: xs) rest) below).of_eq (judge_step hcomma)
    · intro below
      rw [bind_apply_of_ok (accept_of_not_next hnot)]
      exact .ok (judge_moreItems hnot)

theorem follows_commaList (hitem : ∀ ts, Follows [Goal.item list] [] item ts)
    (htakes : ∀ ts x rest, item ts = (.ok x, rest) → rest.length < ts.length) :
    Follows [items list] [Goal.mark .rightParen] (commaList item) ts := by
  by_cases hnext : NextIs (.mark .rightParen) ts
  · obtain ⟨span, rest, rfl⟩ := hnext
    intro below
    rw [commaList_nil ⟨span, rest, rfl⟩]
    have hnone : (items list).step (.mark .rightParen) = some [] := rfl
    have hclose : (mark .rightParen : Goal).step (.mark .rightParen) = some [] := rfl
    exact .ok ((judge_step hnone).trans (judge_step hclose).symm)
  · intro below
    rw [commaList_of_not_next hnext]
    exact (follows_commaSeparated hitem htakes _ (Nat.le_refl _)).of_judge_eq
      (fun below => judge_items hnext) below

end Items

/-! ### Expressions -/

section Expressions

variable {p : Parser Expr}

/-- A reader of **whole expressions** follows the goals. -/
def FollowsExpression (p : Parser Expr) : Prop :=
  ∀ ts, Follows [operand] [] p ts

/-- A reader of operands follows the goals: **more may follow** what it reads. -/
def FollowsOperand (p : Parser Expr) : Prop :=
  ∀ ts, Follows [operand] [more] p ts

/-- What begins with no unary operator is **read as a primary expression**. -/
theorem primary_follows (hp : FollowsExpression p) (h : ∀ t ∈ ts.head?, t.kind.unaryOp? = none) :
    Follows [operand] [more] (primary p) ts := by
  cases ts with
  | nil => exact fun below => .cutShort (judge_cutShort rfl nofun)
  | cons t ts =>
    obtain ⟨k, span⟩ := t
    have hk := h _ rfl
    intro below
    have hsingle : ∀ e : Expr, operand.step k = some [more] →
        Agrees (judge (operand :: below) (⟨k, span⟩ :: ts)) (judge (more :: below)) (.ok e, ts) :=
      fun e hstep => .ok (judge_step hstep)
    rw [primary, bind_apply_of_ok (token_eq_ok.mpr rfl)]
    cases k with
    | number x => exact hsingle (.literal (.number x) span) rfl
    | text s => exact hsingle (.literal (.text s) span) rfl
    | identifier id =>
      by_cases htrue : id = "true"
      · subst htrue
        exact hsingle (.literal (.boolean true) span) rfl
      · by_cases hfalse : id = "false"
        · subst hfalse
          exact hsingle (.literal (.boolean false) span) rfl
        · simp only
          exact hsingle (.name id span) rfl
    | keyword w =>
      cases w with
      | print => exact hsingle (.name Keyword.print.spelling span) rfl
      | _ => exact agrees_mismatch _ _ rfl rfl
    | mark m =>
      cases m with
      | leftParen =>
        have hstep : operand.step (.mark .leftParen) = some [operand, mark .rightParen, more] := rfl
        refine Agrees.of_eq ?_ (judge_step hstep)
        refine ((hp ts).below [mark .rightParen, more]).bind (fun inner rest _ => ?_) below
        exact (follows_mark .rightParen _ rest).bind fun close rest _ => .pure _ rest
      | _ => exact agrees_mismatch _ _ rfl rfl
    | operator op =>
      cases op with
      | minus | bang => contradiction
      | _ => exact agrees_mismatch _ _ rfl rfl
    | endOfInput => exact agrees_mismatch _ _ rfl rfl

/-- An expression **takes a token at the least**. -/
def Shortens (item : Parser α) : Prop :=
  ∀ ts x rest, item ts = (.ok x, rest) → rest.length < ts.length

/-- **Argument lists** are more of an expression. -/
theorem calls_follows (hp : FollowsExpression p) (hshort : Shortens p) (turns : Nat) (callee : Expr)
    (ts : List Token) : Follows [more] [more] (calls p turns callee) ts := by
  induction turns generalizing callee ts with
  | zero => exact .pure callee ts
  | succ turns ih =>
    rw [calls]
    rcases Classical.em (NextIs (.mark .leftParen) ts) with ⟨span, rest, rfl⟩ | hnot
    · have hstep : more.step (.mark .leftParen) = some [items .arguments, more] := rfl
      have hitem : ∀ ts, Follows [Goal.item .arguments] [] p ts := hp
      intro below
      rw [bind_apply_of_ok (accept_next _ span), if_pos rfl]
      refine Agrees.of_eq ?_ (judge_step hstep)
      refine ((follows_commaList hitem hshort).below [more]).bind (fun args rest _ => ?_) below
      exact (follows_mark .rightParen _ rest).bind fun close rest _ => ih _ rest
    · intro below
      rw [bind_apply_of_ok (accept_of_not_next hnot)]
      exact .ok rfl

theorem unaryLevel_follows {operand' : Parser Expr} (hoperand : FollowsOperand operand')
    (hp : FollowsExpression p) (hshort : Shortens p) : FollowsOperand (unaryLevel operand' p) := by
  have hprimary : ∀ ts, (∀ t ∈ ts.head?, t.kind.unaryOp? = none) →
      Follows [operand] [more] (unaryLevel operand' p) ts := by
    intro ts hnone below
    rw [unaryLevel, bind_apply_of_ok (unaryOperator_eq_none.mpr ⟨hnone, rfl⟩)]
    refine (primary_follows hp hnone).bind (fun callee rest _ => ?_) below
    exact calls_follows hp hshort rest.length callee rest
  intro ts
  cases ts with
  | nil => exact hprimary [] (by simp)
  | cons t ts =>
    obtain ⟨k, span⟩ := t
    cases hop : k.unaryOp? with
    | none => exact hprimary _ fun t ht => Option.some.inj ht ▸ hop
    | some op =>
      have hread : unaryOperator (⟨k, span⟩ :: ts) = (.ok (some (op, span)), ts) :=
        unaryOperator_eq_some.mpr ⟨k, rfl, hop⟩
      intro below
      rw [unaryLevel, bind_apply_of_ok hread]
      refine Agrees.of_eq ?_ (judge_step (step_of_unaryOp? hop))
      exact (hoperand ts).bind (fun e rest _ => .pure _ rest) below

/-- **Operators and their operands** are more of an expression. -/
theorem chain_follows {operand' : Parser Expr} (hoperand : FollowsOperand operand') (l turns : Nat)
    (left : Expr) (ts : List Token) : Follows [more] [more] (chain operand' l turns left) ts := by
  induction turns generalizing left ts with
  | zero => exact .pure left ts
  | succ turns ih =>
    rcases Classical.em (InfixNext l ts) with ⟨⟨k, span⟩, ht, op, hop, hl⟩ | hnot
    · obtain ⟨rest, rfl⟩ := List.head?_eq_some_iff.mp ht
      intro below
      rw [chain, bind_apply_of_ok (infixAt_eq_some.mpr ⟨k, span, rfl, hop, hl⟩)]
      refine Agrees.of_eq ?_ (judge_step (step_of_infixOp? hop))
      exact (hoperand rest).bind (fun right rest _ => ih _ rest) below
    · intro below
      rw [chain, bind_apply_of_ok (infixAt_eq_none.mpr ⟨hnot, rfl⟩)]
      exact .ok rfl

theorem levelsFrom_follows {operand' : Parser Expr} (hoperand : FollowsOperand operand') :
    ∀ k l, l + k = InfixOp.levelCount → FollowsOperand (levelsFrom l operand')
  | 0, l, hl => by
    obtain rfl : l = InfixOp.levelCount := hl
    rw [levelsFrom_levelCount]
    exact hoperand
  | k + 1, l, hl => by
    have hnext : FollowsOperand (levelsFrom (l + 1) operand') :=
      levelsFrom_follows hoperand k (l + 1) (by omega)
    rw [levelsFrom_of_lt (by omega)]
    intro ts
    exact (hnext ts).bind fun left rest _ => chain_follows hnext l rest.length left rest

theorem expression_shortens (n : Nat) : Shortens (expression n) := by
  intro ts e rest h
  have hle := (expression_sound n h).takes.length_le
  simp only [Phrase.size] at hle
  omega

theorem expression_follows_of_unary {n : Nat} (h : FollowsOperand (unary n)) :
    FollowsExpression (expression (n + 1)) := by
  intro ts
  have hlevels : Follows [operand] [more] (expression (n + 1)) ts := by
    rw [expression_succ]
    exact levelsFrom_follows h InfixOp.levelCount 0 rfl ts
  refine hlevels.to_judge_eq fun e rest he below => ?_
  -- the expression was read to its end, so nothing more of it is to come
  cases expression_sound (n + 1) he with
  | expression _ hrest =>
    refine judge_optional rfl fun t ht => ?_
    obtain ⟨hparen, hinfix⟩ := hrest t ht
    simp [step, ofMore, hinfix]

/-- The unary level follows the goals, **however deeply things may nest**. -/
theorem unary_follows : ∀ n, FollowsOperand (unary n)
  | 0 => by
    rw [unary_zero]
    exact unaryLevel_follows (fun _ => .tooDeep) (fun _ => .tooDeep) (expression_shortens 0)
  | n + 1 => by
    rw [unary_succ]
    exact unaryLevel_follows (unary_follows n) (expression_follows_of_unary (unary_follows n))
      (expression_shortens (n + 1))

/-- **Expressions are read as the goals say.** -/
theorem expression_follows : ∀ n, FollowsExpression (expression n)
  | 0 => fun _ => .tooDeep
  | n + 1 => expression_follows_of_unary (unary_follows n)

end Expressions

/-! ### Statements -/

section Statements

variable {p : Parser Expr} {q : Parser Block}

/-- A reader of **blocks** follows the goals. -/
def FollowsBlock (q : Parser Block) : Prop :=
  ∀ ts, Follows [Goal.block] [] q ts

/-- A statement **begins here**: neither does the input end, nor the block. -/
def Begun (g : Goal) (ts : List Token) : Prop :=
  ¬ AtEnd ts ∧ (g = inBlock → ¬ NextIs (.mark .rightBrace) ts)

/-- The first token of a statement leaves **what the statement still needs**. -/
theorem judge_statement (hg : g.ForStatements) (h : ofStatement kind = some left) :
    judge (g :: gs) (⟨kind, span⟩ :: ts) = judge (left ++ [ending, g] ++ gs) ts := by
  have hstep : g.step kind = some (left ++ [ending, g]) := by
    cases hg with
    | program => simp [step, h]
    | inBlock =>
      have hne : kind ≠ .mark .rightBrace := by
        rintro rfl
        contradiction
      simp [step, h]
  exact judge_step hstep

/-- **After the word that a statement begins with**, what it still needs is read. -/
theorem follows_word {f : Token → Parser Stmt} (hg : g.ForStatements)
    (h : ofStatement kind = some left)
    (hf : Follows (left ++ [ending, g]) [ending, g] (f ⟨kind, span⟩) ts) :
    Follows [g] [ending, g] (token .expression >>= f) (⟨kind, span⟩ :: ts) := by
  intro below
  rw [bind_apply_of_ok (token_eq_ok.mpr rfl)]
  exact (hf below).of_eq (judge_statement hg h)

theorem declaration_follows (hp : FollowsExpression p) (hg : g.ForStatements) (ts : List Token) :
    Follows [g] [ending, g] (declaration p) (⟨.keyword .declare, span⟩ :: ts) := by
  refine follows_word hg rfl ?_
  refine Follows.bind (follows_identifier _ ts) fun name rest _ => ?_
  refine follows_accept rfl rfl (fun _ hk => by simp [step]) (fun rest => ?_) (.pure _ _)
  exact ((hp rest).below [ending, g]).bind fun e rest _ => .pure _ rest

theorem printing_follows (hp : FollowsExpression p) (hg : g.ForStatements) (ts : List Token) :
    Follows [g] [ending, g] (printing p) (⟨.keyword .print, span⟩ :: ts) := by
  refine follows_word hg rfl ?_
  exact ((hp ts).below [ending, g]).bind fun e rest _ => .pure _ rest

theorem conditional_follows (hp : FollowsExpression p) (hq : FollowsBlock q)
    (hg : g.ForStatements) (ts : List Token) :
    Follows [g] [ending, g] (conditional p q) (⟨.keyword .ifK, span⟩ :: ts) := by
  refine follows_word hg rfl ?_
  refine ((hp ts).below [Goal.block, alternative, ending, g]).bind fun test rest _ => ?_
  refine ((hq rest).below [alternative, ending, g]).bind fun b rest _ => ?_
  refine follows_accept rfl rfl (fun _ hk => by simp [step]) (fun rest => ?_) (.pure _ _)
  exact ((hq rest).below [ending, g]).bind fun c rest _ => .pure _ rest

theorem loop_follows (hp : FollowsExpression p) (hq : FollowsBlock q) (hg : g.ForStatements)
    (ts : List Token) : Follows [g] [ending, g] (loop p q) (⟨.keyword .whileK, span⟩ :: ts) := by
  refine follows_word hg rfl ?_
  refine ((hp ts).below [Goal.block, ending, g]).bind fun test rest _ => ?_
  exact ((hq rest).below [ending, g]).bind fun b rest _ => .pure _ rest

theorem function_follows (hq : FollowsBlock q) (hg : g.ForStatements) (ts : List Token) :
    Follows [g] [ending, g] (function q) (⟨.keyword .function, span⟩ :: ts) := by
  have hname : ∀ ts, Follows [Goal.item .parameters] [] (identifier .parameterName) ts :=
    follows_identifier _
  have hshort : Shortens (identifier .parameterName) := by
    intro ts name rest h
    rw [identifier_eq_ok.mp h]
    exact Nat.lt_succ_self _
  refine follows_word hg rfl ?_
  refine Follows.bind (follows_identifier _ ts) fun name rest _ => ?_
  refine (follows_mark .leftParen _ rest).bind fun opening rest _ => ?_
  refine ((follows_commaList hname hshort).below [Goal.block, ending, g]).bind
    fun params rest _ => ?_
  refine (follows_mark .rightParen _ rest).bind fun closing rest _ => ?_
  exact ((hq rest).below [ending, g]).bind fun b rest _ => .pure _ rest

theorem exit_follows (hp : FollowsExpression p) (hg : g.ForStatements) (ts : List Token) :
    Follows [g] [ending, g] (exit p) (⟨.keyword .returnK, span⟩ :: ts) := by
  refine follows_word hg rfl ?_
  exact ((hp ts).below [ending, g]).bind fun e rest _ => .pure _ rest

/-- A statement that begins with no word is **an expression**. -/
theorem expressionAlone_follows (hp : FollowsExpression p) (hg : g.ForStatements)
    (hbegun : Begun g (⟨kind, span⟩ :: ts)) (hkind : ofStatement kind = ofOperand kind) :
    Follows [g] [ending, g] (do return Stmt.expression (← p) : Parser Stmt)
      (⟨kind, span⟩ :: ts) := by
  have hexpr : Follows [operand, ending, g] [ending, g]
      (do return Stmt.expression (← p) : Parser Stmt) (⟨kind, span⟩ :: ts) :=
    ((hp _).below [ending, g]).bind fun e rest _ => .pure _ rest
  refine hexpr.of_judge_eq fun below => ?_
  cases hoperand : ofOperand kind with
  | some left =>
    have hstep : operand.step kind = some left := hoperand
    refine (judge_statement hg (hkind.trans hoperand)).trans ?_
    rw [List.append_assoc]
    exact (judge_step hstep).symm
  | none =>
    -- neither a statement nor an expression begins with the token
    have hnone : operand.step kind = none := hoperand
    have hend : kind ≠ .endOfInput := fun hk =>
      hbegun.1 fun t ht => by rw [← Option.some.inj ht, hk]
    have hstep : g.step kind = none := by
      cases hg with
      | program => simp [step, hkind, hoperand]
      | inBlock =>
        have hne : kind ≠ .mark .rightBrace := by
          rintro rfl
          exact hbegun.2 rfl ⟨span, ts, rfl⟩
        simp [step, hkind, hoperand]
    have hopt : g.optional = false := by cases hg <;> rfl
    exact (judge_misplaced hend hopt hstep).trans (judge_misplaced hend rfl hnone).symm

/-- A statement that begins with a brace is **a block**. -/
theorem blockAlone_follows (hq : FollowsBlock q) (hg : g.ForStatements) (ts : List Token) :
    Follows [g] [ending, g] (do return Stmt.block (← q) : Parser Stmt)
      (⟨.mark .leftBrace, span⟩ :: ts) := by
  have hblock : Follows [Goal.block, ending, g] [ending, g]
      (do return Stmt.block (← q) : Parser Stmt) (⟨.mark .leftBrace, span⟩ :: ts) :=
    ((hq _).below [ending, g]).bind fun b rest _ => .pure _ rest
  refine hblock.of_judge_eq fun below => ?_
  have hstep : Goal.block.step (.mark .leftBrace) = some [inBlock] := rfl
  exact (judge_statement hg rfl).trans (judge_step hstep).symm

/-- **A statement is read as its first token says.** -/
theorem bareStatement_follows (hp : FollowsExpression p) (hq : FollowsBlock q)
    (hg : g.ForStatements) (hbegun : Begun g ts) :
    Follows [g] [ending, g] (bareStatement p q) ts := by
  cases ts with
  | nil => exact absurd (nofun : AtEnd []) hbegun.1
  | cons t ts =>
    obtain ⟨k, span⟩ := t
    have hother : ofStatement k = ofOperand k →
        bareStatement p q (⟨k, span⟩ :: ts) =
          (do return Stmt.expression (← p) : Parser Stmt) (⟨k, span⟩ :: ts) →
        Follows [g] [ending, g] (bareStatement p q) (⟨k, span⟩ :: ts) := by
      intro hkind heq below
      rw [heq]
      exact expressionAlone_follows hp hg hbegun hkind below
    cases k with
    | keyword w =>
      cases w with
      | declare => exact declaration_follows hp hg ts
      | print => exact printing_follows hp hg ts
      | ifK => exact conditional_follows hp hq hg ts
      | whileK => exact loop_follows hp hq hg ts
      | function => exact function_follows hq hg ts
      | returnK => exact exit_follows hp hg ts
      | _ => exact hother rfl rfl
    | mark m =>
      cases m with
      | leftBrace => exact blockAlone_follows hq hg ts
      | _ => exact hother rfl rfl
    | _ => exact hother rfl rfl

theorem statementOf_follows (hp : FollowsExpression p) (hq : FollowsBlock q)
    (hg : g.ForStatements) (hbegun : Begun g ts) : Follows [g] [g] (statementOf p q) ts := by
  refine (bareStatement_follows hp hq hg hbegun).bind fun s rest _ => ?_
  exact follows_accept rfl rfl (fun _ hk => by simp [step]) (fun rest => .pure s rest)
    (.pure s rest)

/-- A reader of **statements** follows the goals. -/
def FollowsStatement (r : Parser Stmt) : Prop :=
  ∀ g ts, g.ForStatements → Begun g ts → Follows [g] [g] r ts

variable {r : Parser Stmt}

/-- The statements of a block are read **up to its brace**. -/
theorem statementsInBlock_follows (hr : FollowsStatement r) (hshort : Shortens r) (turns : Nat)
    (hturns : ts.length ≤ turns) :
    Follows [inBlock] [mark .rightBrace] (statementsInBlock r turns) ts := by
  induction turns generalizing ts with
  | zero =>
    obtain rfl := List.eq_nil_of_length_eq_zero (Nat.le_zero.mp hturns)
    exact fun below => .cutShort (judge_cutShort rfl nofun)
  | succ turns ih =>
    rw [statementsInBlock]
    intro below
    rw [bind_apply_of_ok (peek_eq_ok.mpr ⟨rfl, rfl⟩)]
    rcases Classical.em (NextIs (.mark .rightBrace) ts) with ⟨span, rest, rfl⟩ | hnot
    · have hopen : inBlock.step (.mark .rightBrace) = some [] := rfl
      have hclose : (Goal.mark .rightBrace).step (.mark .rightBrace) = some [] := rfl
      exact .ok ((judge_step hopen).trans (judge_step hclose).symm)
    · rw [if_neg fun hk => hnot (head?_kind_eq_some.mp hk)]
      by_cases hend : AtEnd ts
      · rw [bind_apply_of_ok (atEnd_eq_ok.mpr ⟨iff_of_true rfl hend, rfl⟩), if_pos rfl]
        exact .cutShort (judge_cutShort rfl hend)
      · rw [bind_apply_of_ok (atEnd_eq_ok.mpr ⟨iff_of_false Bool.false_ne_true hend, rfl⟩),
          if_neg Bool.false_ne_true]
        refine (hr inBlock ts .inBlock ⟨hend, fun _ => hnot⟩).bind (fun s rest hs => ?_) below
        have hlt := hshort _ _ _ hs
        exact (ih (by omega)).bind fun ss rest _ => .pure _ rest

theorem braced_follows (hr : FollowsStatement r) (hshort : Shortens r) :
    FollowsBlock (braced r) := by
  intro ts
  have hopen : Goal.block.step (.mark .leftBrace) = some [inBlock] := rfl
  refine (follows_expect _ rfl hopen (fun _ hk => by simp [step]) ts).bind fun opening rest _ => ?_
  refine Follows.bind (statementsInBlock_follows hr hshort _ (Nat.le_refl _)) fun ss rest _ => ?_
  exact (follows_mark .rightBrace _ rest).bind fun closing rest _ => .pure _ rest

/-- The statements of a program are read **up to the end of the input**. -/
theorem statementsToEnd_follows (hr : FollowsStatement r) (turns : Nat) (ts : List Token) :
    Follows [Goal.program] [Goal.program] (statementsToEnd r turns) ts := by
  induction turns generalizing ts with
  | zero => exact .pure [] ts
  | succ turns ih =>
    rw [statementsToEnd]
    intro below
    by_cases hend : AtEnd ts
    · rw [bind_apply_of_ok (atEnd_eq_ok.mpr ⟨iff_of_true rfl hend, rfl⟩), if_pos rfl]
      exact .ok rfl
    · rw [bind_apply_of_ok (atEnd_eq_ok.mpr ⟨iff_of_false Bool.false_ne_true hend, rfl⟩),
        if_neg Bool.false_ne_true]
      refine (hr Goal.program ts .program ⟨hend, by rintro ⟨⟩⟩).bind (fun s rest _ => ?_) below
      exact (ih rest).bind fun ss rest _ => .pure _ rest

end Statements

theorem statement_shortens (n : Nat) : Shortens (statement n) := by
  intro ts s rest h
  have hle := (statement_sound n h).takes.length_le
  simp only [Phrase.size] at hle
  omega

/-- Blocks follow the goals, **however deeply things may nest**. -/
theorem block_follows : ∀ n, FollowsBlock (block n)
  | 0 => fun _ => .tooDeep
  | n + 1 => braced_follows (fun _ _ hg hbegun => statementOf_follows (expression_follows n)
      (block_follows n) hg hbegun) (statement_shortens n)

/-- **Programs are read as the goals say.** -/
theorem program_follows (ts : List Token) : Follows [Goal.program] [Goal.program] program ts := by
  have hstatement : FollowsStatement (statement nestingLimit) := fun _ _ hg hbegun =>
    statementOf_follows (expression_follows nestingLimit) (block_follows nestingLimit) hg hbegun
  exact (statementsToEnd_follows hstatement ts.length ts).bind fun ss rest _ => .pure _ rest

end Parser

/-! ### Programs -/

/-- What the parser finds misplaced **may not come next**. -/
theorem judge_of_parse_misplaced {ts : List Token} {found : Token} {expected : Expected}
    (h : parse ts = .error (.misplaced found expected)) :
    Goal.judge [.program] ts = .misplaced found := by
  have hfollows := Parser.program_follows ts []
  rw [List.append_nil] at hfollows
  rcases hr : Parser.program ts with ⟨r, rest⟩
  rw [parse, hr] at h
  obtain rfl : r = .error (.misplaced found expected) := h
  rw [hr] at hfollows
  cases hfollows with
  | misplaced heq => exact heq

/-- Where the parser finds the end of the input, **something is still to come**. -/
theorem judge_of_parse_cutShort {ts : List Token} {expected : Expected}
    (h : parse ts = .error (.cutShort expected)) : Goal.judge [.program] ts = .cutShort := by
  have hfollows := Parser.program_follows ts []
  rw [List.append_nil] at hfollows
  rcases hr : Parser.program ts with ⟨r, rest⟩
  rw [parse, hr] at h
  obtain rfl : r = .error (.cutShort expected) := h
  rw [hr] at hfollows
  cases hfollows with
  | cutShort heq => exact heq

/-- **What has been read can be completed**, as there are tokens of any kind. -/
theorem exists_accepted {before : List Token} {left : List Goal}
    (h : Goal.advanceAll [.program] (before.map Token.kind) = some left) :
    ∃ more, Accepted (before ++ more) := by
  obtain ⟨u, hu⟩ := Goal.exists_generates h
  refine ⟨u.map fun k => ⟨k, .none⟩, ?_⟩
  have hkinds : Token.kind ∘ (fun k => ⟨k, .none⟩) = id := rfl
  rwa [Accepted, List.map_append, List.map_map, hkinds, List.map_id]

/-- **Errors are reported at the first wrong token.** Let only the last of the tokens be the end of
the input. If the parser finds a misplaced token, then it is one of the tokens before the end; what
stands before it can be completed to tokens that the grammar accepts, and with it they cannot. If
the parser finds that the input ends too early, then all of it can be completed, and is not accepted
as it is. -/
theorem parse_error_first (body : List Token) (last : Token) (hlast : last.kind = .endOfInput)
    (hbody : ∀ t ∈ body, t.kind ≠ .endOfInput) :
    (∀ found expected, parse (body ++ [last]) = .error (.misplaced found expected) →
      ∃ before after, body = before ++ found :: after ∧ found.kind ≠ .endOfInput ∧
        (∃ more, Accepted (before ++ more)) ∧ ∀ more, ¬ Accepted (before ++ found :: more)) ∧
    ∀ expected, parse (body ++ [last]) = .error (.cutShort expected) →
      (∃ more, Accepted (body ++ more)) ∧ ¬ Accepted body := by
  obtain ⟨kind, span⟩ := last
  obtain rfl : kind = .endOfInput := hlast
  refine ⟨fun found expected h => ?_, fun expected h => ?_⟩
  · obtain ⟨before, after, left, rfl, hall, hnone⟩ :=
      Goal.of_judge_misplaced hbody (judge_of_parse_misplaced h)
    refine ⟨before, after, rfl, hbody found (by simp), exists_accepted hall, fun more hmore => ?_⟩
    rw [Accepted, List.map_append, List.map_cons] at hmore
    exact Goal.not_generates_of_advance hall hnone _ hmore
  · obtain ⟨left, hall, hend⟩ := Goal.of_judge_cutShort hbody (judge_of_parse_cutShort h)
    exact ⟨exists_accepted hall, Goal.not_generates_of_mayEnd hall hend⟩

/-- After a word for printing, a closing parenthesis is misplaced, and the end comes too early. -/
theorem parse_error_first_print :
    (∃ before after, [(⟨.keyword .print, .none⟩ : Token), ⟨.mark .rightParen, .none⟩] =
        before ++ ⟨.mark .rightParen, .none⟩ :: after ∧
      (Token.Kind.mark .rightParen) ≠ .endOfInput ∧ (∃ more, Accepted (before ++ more)) ∧
      ∀ more, ¬ Accepted (before ++ ⟨.mark .rightParen, .none⟩ :: more)) ∧
    (∃ more, Accepted ([⟨.keyword .print, .none⟩] ++ more)) ∧
      ¬ Accepted [⟨.keyword .print, .none⟩] :=
  ⟨(parse_error_first [⟨.keyword .print, .none⟩, ⟨.mark .rightParen, .none⟩] ⟨.endOfInput, .none⟩
      rfl (by decide)).1 _ _ rfl,
    (parse_error_first [⟨.keyword .print, .none⟩] ⟨.endOfInput, .none⟩ rfl (by decide)).2 _ rfl⟩

end ScopeScript
