import ScopeScript.Proofs.Grammar
import ScopeScript.Proofs.Scanning

/-!
# Phrases in another place

A phrase is spelled by its own tokens. It stays a phrase where there is **more room for nesting**
and where **other tokens follow**, as long as these do not continue an expression that the phrase
ends with (`ScopeScript.Derives.movable`). And if all its tokens move, then its tree moves with
them (`ScopeScript.Derives.mapSpan`): spans are never looked at, only merged.
-/

namespace ScopeScript

open ScopeScript.Parser (NextIs)

/-! ### More room, and other tokens behind -/

theorem Complete.atEnd {span : Span} : Complete [⟨.endOfInput, span⟩] := by
  rintro t ⟨⟩
  exact ⟨nofun, rfl⟩

/-- What follows **behind some tokens** matters only if there are none. -/
theorem Complete.append_congr {rest rest' : List Token} (h : Complete rest → Complete rest') :
    ∀ ts : List Token, Complete (ts ++ rest) → Complete (ts ++ rest')
  | [] => h
  | _ :: _ => id

/-- **A phrase is a phrase elsewhere**: it takes certain tokens, and these spell it with more levels
of nesting left, and before other tokens too. Only if the tokens behind it end an expression must
the others do so as well. -/
def Movable (n : Nat) (phrase : Phrase) (ts rest : List Token) : Prop :=
  ∃ taken, ts = taken ++ rest ∧ ∀ m rest', n ≤ m → (Complete rest → Complete rest') →
    Derives m phrase (taken ++ rest') rest'

section Rules

variable {n : Nat} {φ ψ χ : Phrase} {ts mid rest : List Token}

/-- A rule for **certain tokens**. -/
theorem Movable.tokens (front : List Token) (rule : ∀ m rest, Derives m χ (front ++ rest) rest) :
    Movable n χ (front ++ rest) rest :=
  ⟨front, rfl, fun m rest' _ _ => rule m rest'⟩

/-- A rule with **one part**, which may take levels of nesting and put tokens around the part. -/
theorem Movable.part (front close : List Token) (k : Nat) (h : Movable n φ ts (close ++ rest))
    (rule : ∀ m ts rest, Derives m φ ts (close ++ rest) → Derives (m + k) χ (front ++ ts) rest) :
    Movable (n + k) χ (front ++ ts) rest := by
  obtain ⟨taken, rfl, h⟩ := h
  refine ⟨front ++ taken ++ close, by simp only [List.append_assoc], fun m rest' hm hrest => ?_⟩
  obtain ⟨m, rfl⟩ := Nat.exists_eq_add_of_le' (Nat.le_of_add_left_le hm)
  have hpart := h m (close ++ rest') (by omega) (Complete.append_congr hrest close)
  simpa only [List.append_assoc] using rule m _ rest' hpart

/-- A rule with **two parts**, with tokens before, between and behind them. -/
theorem Movable.parts (front glue close : List Token) (h : Movable n φ ts (glue ++ mid))
    (h' : Movable n ψ mid (close ++ rest))
    (rule : ∀ m ts mid rest, Derives m φ ts (glue ++ mid) → Derives m ψ mid (close ++ rest) →
      Derives m χ (front ++ ts) rest) :
    Movable n χ (front ++ ts) rest := by
  obtain ⟨taken, rfl, h⟩ := h
  obtain ⟨taken', rfl, h'⟩ := h'
  refine ⟨front ++ taken ++ glue ++ taken' ++ close, by simp only [List.append_assoc],
    fun m rest' hm hrest => ?_⟩
  have hclose := Complete.append_congr hrest close
  have hpart := h m (glue ++ (taken' ++ (close ++ rest'))) hm
    (Complete.append_congr (Complete.append_congr hclose taken') glue)
  simpa only [List.append_assoc] using rule m _ _ rest' hpart (h' m (close ++ rest') hm hclose)

end Rules

/-- **Every phrase is one elsewhere.** -/
theorem Derives.movable {n : Nat} {phrase : Phrase} {ts rest : List Token}
    (h : Derives n phrase ts rest) : Movable n phrase ts rest := by
  induction h with
  | number => exact .tokens [_] fun _ _ => .number
  | text => exact .tokens [_] fun _ _ => .text
  | truth => exact .tokens [_] fun _ _ => .truth
  | falsehood => exact .tokens [_] fun _ _ => .falsehood
  | name htrue hfalse => exact .tokens [_] fun _ _ => .name htrue hfalse
  | builtin => exact .tokens [_] fun _ _ => .builtin
  | parentheses _ ih => exact .part [_] [_] 0 ih fun _ _ _ => .parentheses
  | callee _ ih => exact .part [] [] 0 ih fun _ _ _ => .callee
  | application _ _ ihf ihargs =>
    exact .parts [] [_] [_] ihf ihargs fun _ _ _ _ => .application
  | unsigned _ ih => exact .part [] [] 0 ih fun _ _ _ => .unsigned
  | signed hop _ ih => exact .part [_] [] 1 ih fun _ _ _ => .signed hop
  | tightest _ ih => exact .part [] [] 0 ih fun _ _ _ => .tightest
  | operand hl _ ih => exact .part [] [] 0 ih fun _ _ _ => .operand hl
  | operation hop _ _ iha ihb => exact .parts [] [_] [] iha ihb fun _ _ _ _ => .operation hop
  | expression _ hcomplete ih =>
    -- the only rule that asks what follows
    obtain ⟨taken, rfl, h⟩ := ih
    refine ⟨taken, rfl, fun m rest' hm hrest => ?_⟩
    obtain ⟨m, rfl⟩ := Nat.exists_eq_add_of_le' (Nat.le_of_add_left_le hm)
    exact .expression (h m rest' (by omega) hrest) (hrest hcomplete)
  | oneExpression _ ih => exact .part [] [] 0 ih fun _ _ _ => .oneExpression
  | moreExpressions _ _ ih ihs =>
    exact .parts [] [_] [] ih ihs fun _ _ _ _ => .moreExpressions
  | noArguments => exact .tokens [] fun _ _ => .noArguments
  | someArguments _ ih => exact .part [] [] 0 ih fun _ _ _ => .someArguments
  | oneName => exact .tokens [_] fun _ _ => .oneName
  | moreNames _ ih => exact .part [_, _] [] 0 ih fun _ _ _ => .moreNames
  | noParameters => exact .tokens [] fun _ _ => .noParameters
  | someParameters _ ih => exact .part [] [] 0 ih fun _ _ _ => .someParameters
  | declare => exact .tokens [_, _] fun _ _ => .declare
  | declareAs _ ih => exact .part [_, _, _] [] 0 ih fun _ _ _ => .declareAs
  | print _ ih => exact .part [_] [] 0 ih fun _ _ _ => .print
  | conditional _ _ iht ihb => exact .parts [_] [] [] iht ihb fun _ _ _ _ => .conditional
  | @alternative n test b c word span ts mid mid' rest _ _ _ iht ihb ihc =>
    -- the only rule with three parts
    obtain ⟨taken, rfl, ht⟩ := iht
    obtain ⟨taken', rfl, hb⟩ := ihb
    obtain ⟨taken'', rfl, hc⟩ := ihc
    refine ⟨⟨.keyword .ifK, word⟩ :: taken ++ taken' ++ ⟨.keyword .elseK, span⟩ :: taken'', by simp,
      fun m rest' hm hrest => ?_⟩
    have hsame : Complete (⟨.keyword .elseK, span⟩ :: (taken'' ++ rest)) →
        Complete (⟨.keyword .elseK, span⟩ :: (taken'' ++ rest')) := id
    have htest := ht m _ hm (Complete.append_congr hsame taken')
    have hblock := hb m _ hm hsame
    simpa using htest.alternative hblock (hc m rest' hm hrest)
  | loop _ _ iht ihb => exact .parts [_] [] [] iht ihb fun _ _ _ _ => .loop
  | function _ _ ihp ihb => exact .parts [_, _, _] [_] [] ihp ihb fun _ _ _ _ => .function
  | exit _ ih => exact .part [_] [] 0 ih fun _ _ _ => .exit
  | blockAlone _ ih => exact .part [] [] 0 ih fun _ _ _ => .blockAlone
  | expressionAlone h hprint ih =>
    obtain ⟨taken, rfl, hmoved⟩ := ih
    refine ⟨taken, rfl, fun m rest' hm hrest => .expressionAlone (hmoved m rest' hm hrest) ?_⟩
    -- the first token is one of the phrase
    cases taken with
    | nil => exact absurd h.takes.length_le (by simp [Phrase.size])
    | cons t taken =>
      rintro ⟨span, after, hfirst⟩
      exact hprint ⟨span, _, by rw [List.cons_append, (List.cons.inj hfirst).1]⟩
  | plain _ ih => exact .part [] [] 0 ih fun _ _ _ => .plain
  | terminated _ ih => exact .part [] [_] 0 ih fun _ _ _ => .terminated
  | block _ ih => exact .part [_] [_] 1 ih fun _ _ _ => .block
  | noStatements => exact .tokens [] fun _ _ => .noStatements
  | moreStatements _ _ ih ihs => exact .parts [] [] [] ih ihs fun _ _ _ _ => .moreStatements

/-! ### Spans in another place -/

mutual

/-- The same expression with **its spans and those of its parts** changed. -/
def Expr.mapSpan (f : Span → Span) : Expr → Expr
  | .literal v s => .literal v (f s)
  | .name id s => .name id (f s)
  | .binary op l r s => .binary op (l.mapSpan f) (r.mapSpan f) (f s)
  | .logical op l r s => .logical op (l.mapSpan f) (r.mapSpan f) (f s)
  | .unary op e s => .unary op (e.mapSpan f) (f s)
  | .call g args s => .call (g.mapSpan f) (Expr.mapSpanAll f args) (f s)

/-- Several expressions with their spans changed. -/
def Expr.mapSpanAll (f : Span → Span) : List Expr → List Expr
  | [] => []
  | e :: es => e.mapSpan f :: Expr.mapSpanAll f es

end

mutual

/-- The same statement with **its spans and those of its parts** changed. -/
def Stmt.mapSpan (f : Span → Span) : Stmt → Stmt
  | .declare name none s => .declare name none (f s)
  | .declare name (some e) s => .declare name (some (e.mapSpan f)) (f s)
  | .print e s => .print (e.mapSpan f) (f s)
  | .block b => .block (b.mapSpan f)
  | .conditional test b none s => .conditional (test.mapSpan f) (b.mapSpan f) none (f s)
  | .conditional test b (some c) s =>
    .conditional (test.mapSpan f) (b.mapSpan f) (some (c.mapSpan f)) (f s)
  | .loop test b s => .loop (test.mapSpan f) (b.mapSpan f) (f s)
  | .function name params b s => .function name params (b.mapSpan f) (f s)
  | .exit e s => .exit (e.mapSpan f) (f s)
  | .expression e => .expression (e.mapSpan f)

/-- The same block with its spans and those of its parts changed. -/
def Block.mapSpan (f : Span → Span) : Block → Block
  | .mk ss s => .mk (Stmt.mapSpanAll f ss) (f s)

/-- Several statements with their spans changed. -/
def Stmt.mapSpanAll (f : Span → Span) : List Stmt → List Stmt
  | [] => []
  | s :: ss => s.mapSpan f :: Stmt.mapSpanAll f ss

end

/-- The same phrase with its spans changed. -/
def Phrase.mapSpan (f : Span → Span) : Phrase → Phrase
  | primary e => primary (e.mapSpan f)
  | call e => call (e.mapSpan f)
  | unary e => unary (e.mapSpan f)
  | level l e => level l (e.mapSpan f)
  | expression e => expression (e.mapSpan f)
  | expressions es => expressions (Expr.mapSpanAll f es)
  | arguments es => arguments (Expr.mapSpanAll f es)
  | names ns => names ns
  | parameters ns => parameters ns
  | block b => block (b.mapSpan f)
  | bare s => bare (s.mapSpan f)
  | statement s => statement (s.mapSpan f)
  | statements ss => statements (Stmt.mapSpanAll f ss)

/-- The same program with its spans changed. -/
def Program.mapSpan (f : Span → Span) (p : Program) : Program :=
  ⟨Stmt.mapSpanAll f p.statements⟩

/-- The span with its place **forgotten**. -/
def Span.unplaced (_ : Span) : Span :=
  .none

/-- A change of spans that **goes along with merging**. -/
def Merges (f : Span → Span) : Prop :=
  ∀ s t : Span, f (s.merge t) = (f s).merge (f t)

theorem Span.merges_unplaced : Merges Span.unplaced :=
  fun _ _ => rfl

theorem Span.merges_forth (a : Nat) : Merges (Span.forth a) := by
  intro s t
  simp only [Span.forth, Span.merge, Span.mk.injEq]
  omega

theorem Span.merges_back (a : Nat) : Merges (Span.back a) := by
  intro s t
  simp only [Span.back, Span.merge, Span.mk.injEq]
  omega

@[simp] theorem Token.mapSpan_mk (f : Span → Span) (kind : Token.Kind) (span : Span) :
    Token.mapSpan f ⟨kind, span⟩ = ⟨kind, f span⟩ :=
  rfl

section Changed

variable (f : Span → Span)

@[simp] theorem Expr.span_mapSpan (e : Expr) : (e.mapSpan f).span = f e.span := by
  cases e <;> rfl

@[simp] theorem Expr.mapSpan_withSpan (e : Expr) (s : Span) :
    (e.withSpan s).mapSpan f = (e.mapSpan f).withSpan (f s) := by
  cases e <;> rfl

@[simp] theorem Block.span_mapSpan (b : Block) : (b.mapSpan f).span = f b.span := by
  cases b
  rfl

@[simp] theorem Stmt.span_mapSpan (s : Stmt) : (s.mapSpan f).span = f s.span := by
  fun_cases Stmt.mapSpan f s <;> simp [Stmt.span]

theorem InfixOp.mapSpan_node {f : Span → Span} (hf : Merges f) (op : InfixOp) (a b : Expr) :
    (op.node a b).mapSpan f = op.node (a.mapSpan f) (b.mapSpan f) := by
  cases op <;> simp [node, Expr.mapSpan, hf _ _]

theorem complete_map_iff {ts : List Token} :
    Complete (ts.map (Token.mapSpan f)) ↔ Complete ts := by
  cases ts <;> simp [Complete, Token.mapSpan]

theorem nextIs_map_iff {kind : Token.Kind} {ts : List Token} :
    NextIs kind (ts.map (Token.mapSpan f)) ↔ NextIs kind ts := by
  simp only [← Parser.head?_kind_eq_some, List.head?_map, Option.map_map]
  rfl

end Changed

/-! Spans that stay where they are leave trees **as they are**. -/

mutual

theorem Expr.mapSpan_id : ∀ e : Expr, e.mapSpan id = e
  | .literal v s => rfl
  | .name n s => rfl
  | .binary op l r s => by rw [Expr.mapSpan, l.mapSpan_id, r.mapSpan_id, id]
  | .logical op l r s => by rw [Expr.mapSpan, l.mapSpan_id, r.mapSpan_id, id]
  | .unary op e s => by rw [Expr.mapSpan, e.mapSpan_id, id]
  | .call g args s => by rw [Expr.mapSpan, g.mapSpan_id, Expr.mapSpanAll_id args, id]

theorem Expr.mapSpanAll_id : ∀ es : List Expr, Expr.mapSpanAll id es = es
  | [] => rfl
  | e :: es => by rw [Expr.mapSpanAll, e.mapSpan_id, Expr.mapSpanAll_id es]

end

mutual

theorem Stmt.mapSpan_id : ∀ s : Stmt, s.mapSpan id = s
  | .declare n none s => rfl
  | .declare n (some e) s => by rw [Stmt.mapSpan, e.mapSpan_id, id]
  | .print e s => by rw [Stmt.mapSpan, e.mapSpan_id, id]
  | .block b => by rw [Stmt.mapSpan, b.mapSpan_id]
  | .conditional test b none s => by rw [Stmt.mapSpan, test.mapSpan_id, b.mapSpan_id, id]
  | .conditional test b (some c) s => by
    rw [Stmt.mapSpan, test.mapSpan_id, b.mapSpan_id, c.mapSpan_id, id]
  | .loop test b s => by rw [Stmt.mapSpan, test.mapSpan_id, b.mapSpan_id, id]
  | .function n params b s => by rw [Stmt.mapSpan, b.mapSpan_id, id]
  | .exit e s => by rw [Stmt.mapSpan, e.mapSpan_id, id]
  | .expression e => by rw [Stmt.mapSpan, e.mapSpan_id]

theorem Block.mapSpan_id : ∀ b : Block, b.mapSpan id = b
  | .mk ss s => by rw [Block.mapSpan, Stmt.mapSpanAll_id ss, id]

theorem Stmt.mapSpanAll_id : ∀ ss : List Stmt, Stmt.mapSpanAll id ss = ss
  | [] => rfl
  | s :: ss => by rw [Stmt.mapSpanAll, s.mapSpan_id, Stmt.mapSpanAll_id ss]

end

/-- **Trees move with their tokens.** -/
theorem Derives.mapSpan {f : Span → Span} (hf : Merges f) {n : Nat} {phrase : Phrase}
    {ts rest : List Token} (h : Derives n phrase ts rest) :
    Derives n (phrase.mapSpan f) (ts.map (Token.mapSpan f)) (rest.map (Token.mapSpan f)) := by
  induction h with
  | number => exact .number
  | text => exact .text
  | truth => exact .truth
  | falsehood => exact .falsehood
  | name htrue hfalse => exact .name htrue hfalse
  | builtin => exact .builtin
  | parentheses _ ih => simpa [Phrase.mapSpan, hf _ _] using ih.parentheses
  | callee _ ih => exact .callee ih
  | application _ _ ihf ihargs =>
    simpa [Phrase.mapSpan, Expr.mapSpan, hf _ _] using ihf.application ihargs
  | unsigned _ ih => exact .unsigned ih
  | signed hop _ ih => simpa [Phrase.mapSpan, Expr.mapSpan, hf _ _] using ih.signed hop
  | tightest _ ih => exact .tightest ih
  | operand hl _ ih => exact .operand hl ih
  | operation hop _ _ iha ihb =>
    simpa [Phrase.mapSpan, InfixOp.mapSpan_node hf] using iha.operation hop ihb
  | expression _ hcomplete ih => exact .expression ih ((complete_map_iff f).mpr hcomplete)
  | oneExpression _ ih => exact .oneExpression ih
  | moreExpressions _ _ ih ihs => exact ih.moreExpressions ihs
  | noArguments => exact .noArguments
  | someArguments _ ih => exact .someArguments ih
  | oneName => exact .oneName
  | moreNames _ ih => exact .moreNames ih
  | noParameters => exact .noParameters
  | someParameters _ ih => exact .someParameters ih
  | declare => simpa [Phrase.mapSpan, Stmt.mapSpan, hf _ _] using Derives.declare
  | declareAs _ ih => simpa [Phrase.mapSpan, Stmt.mapSpan, hf _ _] using ih.declareAs
  | print _ ih => simpa [Phrase.mapSpan, Stmt.mapSpan, hf _ _] using ih.print
  | conditional _ _ iht ihb =>
    simpa [Phrase.mapSpan, Stmt.mapSpan, hf _ _] using iht.conditional ihb
  | alternative _ _ _ iht ihb ihc =>
    simpa [Phrase.mapSpan, Stmt.mapSpan, hf _ _] using iht.alternative ihb ihc
  | loop _ _ iht ihb => simpa [Phrase.mapSpan, Stmt.mapSpan, hf _ _] using iht.loop ihb
  | function _ _ ihp ihb =>
    simpa [Phrase.mapSpan, Stmt.mapSpan, hf _ _] using ihp.function ihb
  | exit _ ih => simpa [Phrase.mapSpan, Stmt.mapSpan, hf _ _] using ih.exit
  | blockAlone _ ih => exact .blockAlone ih
  | expressionAlone _ hprint ih =>
    exact .expressionAlone ih fun hnext => hprint ((nextIs_map_iff f).mp hnext)
  | plain _ ih => exact .plain ih
  | terminated _ ih => exact .terminated ih
  | block _ ih => simpa [Phrase.mapSpan, Block.mapSpan, hf _ _] using ih.block
  | noStatements => exact .noStatements
  | moreStatements _ _ ih ihs => exact ih.moreStatements ihs

end ScopeScript
