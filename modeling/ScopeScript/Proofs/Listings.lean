import ScopeScript.Program.Listing
import ScopeScript.Proofs.DeclaredNames
import ScopeScript.Proofs.Parenthesized
import ScopeScript.Proofs.PrintedNumbers

/-!
# Listings tell programs apart

**The listing of a program determines it**, up to the places of its nodes
(`ScopeScript.listing_determines`): two programs that were read and are listed alike are the same
tree. The numbers of the programs must be finite, as infinity is listed like a variable.

A tree is listed as an item of words and lists, and items can be read off their text. What is left
is that an item is listed from one tree only. A word by itself is the leaf that the scanner makes
of it, and there is one such leaf (`ScopeScript.Tells.unique`). A list tells by its head what it
is, an operator or one of the words that no operator is called, and the only lists of expressions
with such a word are calls.

What is needed of the words holds for the programs that were read, and for all nodes below a node if
it holds for the node (`ScopeScript.Legible`).
-/

namespace ScopeScript

/-! ### Trees as items -/

mutual

/-- The **item that an expression is listed as**. -/
def Expr.listed : Expr → Listed
  | .literal v _ => .word v.listing
  | .name id _ => .word id
  | .binary op l r _ => .list [.word op.symbol, l.listed, r.listed]
  | .logical op l r _ => .list [.word op.symbol, l.listed, r.listed]
  | .unary op e _ => .list [.word op.symbol, e.listed]
  | .call f args _ => .list (.word "call" :: f.listed :: Expr.listedAll args)

/-- The items that several expressions are listed as. -/
def Expr.listedAll : List Expr → List Listed
  | [] => []
  | e :: es => e.listed :: Expr.listedAll es

end

mutual

/-- The item that a statement is listed as. -/
def Stmt.listed : Stmt → Listed
  | .declare name none _ => .list [.word "declare", .word name]
  | .declare name (some e) _ => .list [.word "declare", .word name, e.listed]
  | .print e _ => .list [.word "print", e.listed]
  | .block b => b.listed
  | .conditional test b none _ => .list [.word "if", test.listed, b.listed]
  | .conditional test b (some c) _ => .list [.word "if", test.listed, b.listed, c.listed]
  | .loop test b _ => .list [.word "while", test.listed, b.listed]
  | .function name params b _ =>
    .list [.word "function", .word name, .list (params.map .word), b.listed]
  | .exit e _ => .list [.word "return", e.listed]
  | .expression e => e.listed

/-- The item that a block is listed as. -/
def Block.listed : Block → Listed
  | .mk ss _ => .list (.word "block" :: Stmt.listedAll ss)

/-- The items that several statements are listed as. -/
def Stmt.listedAll : List Stmt → List Listed
  | [] => []
  | s :: ss => s.listed :: Stmt.listedAll ss

end

open Listed (print printEach printAll)

mutual

/-- **The listing of an expression is its item in print.** -/
theorem Expr.toList_listing : ∀ e : Expr, e.listing.toList = e.listed.print
  | .literal v s => rfl
  | .name id s => rfl
  | .binary op l r s => by
    simp [Expr.listing, Expr.listed, print, printEach, l.toList_listing, r.toList_listing]
  | .logical op l r s => by
    simp [Expr.listing, Expr.listed, print, printEach, l.toList_listing, r.toList_listing]
  | .unary op e s => by
    simp [Expr.listing, Expr.listed, print, printEach, e.toList_listing]
  | .call f args s => by
    simp [Expr.listing, Expr.listed, print, printEach, f.toList_listing,
      Expr.toList_listingAll args]

theorem Expr.toList_listingAll : ∀ es : List Expr,
    (Expr.listingAll es).toList = printEach ' ' (Expr.listedAll es)
  | [] => rfl
  | e :: es => by
    simp [Expr.listingAll, Expr.listedAll, printEach, e.toList_listing,
      Expr.toList_listingAll es]

end

mutual

/-- **The listing of a statement is its item in print.** -/
theorem Stmt.toList_listing : ∀ s : Stmt, s.listing.toList = s.listed.print
  | .declare name none s => by simp [Stmt.listing, Stmt.listed, print, printEach]
  | .declare name (some e) s => by
    simp [Stmt.listing, Stmt.listed, print, printEach, e.toList_listing]
  | .print e s => by simp [Stmt.listing, Stmt.listed, print, printEach, e.toList_listing]
  | .block b => by simp [Stmt.listing, Stmt.listed, b.toList_listing]
  | .conditional test b none s => by
    simp [Stmt.listing, Stmt.listed, print, printEach, test.toList_listing, b.toList_listing]
  | .conditional test b (some c) s => by
    simp [Stmt.listing, Stmt.listed, print, printEach, test.toList_listing, b.toList_listing,
      c.toList_listing]
  | .loop test b s => by
    simp [Stmt.listing, Stmt.listed, print, printEach, test.toList_listing, b.toList_listing]
  | .function name params b s => by
    have hparams : (" ".intercalate params).toList = printAll ' ' (params.map .word) := by
      rw [String.toList_intercalate, ← Listed.intercalate_print, List.map_map]
      rfl
    have hlist := Listed.print_list_eq (params.map .word)
    simp [Stmt.listing, Stmt.listed, print, printEach, hlist, hparams, b.toList_listing]
  | .exit e s => by simp [Stmt.listing, Stmt.listed, print, printEach, e.toList_listing]
  | .expression e => by simp [Stmt.listing, Stmt.listed, e.toList_listing]

theorem Block.toList_listing : ∀ b : Block, b.listing.toList = b.listed.print
  | .mk ss s => by simp [Block.listing, Block.listed, print, Stmt.toList_listingAll ss]

theorem Stmt.toList_listingAll : ∀ ss : List Stmt,
    (Stmt.listingAll ss).toList = printEach ' ' (Stmt.listedAll ss)
  | [] => rfl
  | s :: ss => by
    simp [Stmt.listingAll, Stmt.listedAll, printEach, s.toList_listing,
      Stmt.toList_listingAll ss]

end

/-- **The listing of a program** is the items of its statements, each on a line of its own. -/
theorem Program.toList_listing (p : Program) :
    p.listing.toList = printAll '\n' (Stmt.listedAll p.statements) := by
  have hmap (ss : List Stmt) : (ss.map Stmt.listing).map String.toList =
      (Stmt.listedAll ss).map print := by
    induction ss with
    | nil => rfl
    | cons s ss ih =>
      simp only [List.map_cons, Stmt.listedAll, ih, s.toList_listing]
  rw [Program.listing, String.toList_intercalate, hmap, ← Listed.intercalate_print]
  rfl

/-! ### Words that tell what they are -/

/-- What a token is as an expression, **when it is one by itself**. -/
def Token.Kind.leaf? : Token.Kind → Option Expr
  | number x => some (.literal (.number x) .none)
  | text s => some (.literal (.text s) .none)
  | identifier id => some (.ofName id .none)
  | keyword .print => some (.name Keyword.print.spelling .none)
  | _ => none

/-- The word that an expression without parts is listed as. -/
def Expr.word? : Expr → Option String
  | literal v _ => some v.listing
  | name id _ => some id
  | _ => none

/-- The word **tells the expression**, which has no place. -/
inductive Tells : String → Expr → Prop
  /-- The word is a lexeme, and the expression what it denotes. -/
  | lexeme {w kind e} (h : Lexeme.Denotes w.toList kind) (htext : ∀ s, kind ≠ .text s)
    (he : kind.leaf? = some e) : Tells w e
  /-- The word is a quoted text. -/
  | quoted {s} : Tells (Text.quoted s) (.literal (.text s) .none)

namespace Tells

variable {w : String} {e e' : Expr}

/-- A quoted text is **no other lexeme**. -/
theorem not_denotes_quoted {s : String} {kind : Token.Kind} (htext : ∀ s, kind ≠ .text s) :
    ¬ Lexeme.Denotes (Text.quoted s).toList kind := by
  rw [Text.toList_quoted]
  intro h
  obtain ⟨value, hvalue⟩ := Lexeme.Denotes.exists_text (q := .double) h
  exact htext value hvalue

/-- A word tells **one expression**. -/
theorem unique (h : Tells w e) (h' : Tells w e') : e = e' := by
  cases h with
  | lexeme h htext he =>
    cases h' with
    | lexeme h' htext' he' =>
      obtain rfl := h.unique h'
      exact Option.some.inj (he.symm.trans he')
    | quoted => exact absurd h (not_denotes_quoted htext)
  | quoted =>
    generalize hw : Text.quoted _ = w at h'
    cases h' with
    | lexeme h' htext' he' =>
      subst hw
      exact absurd h' (not_denotes_quoted htext')
    | quoted =>
      rw [Text.quoted_inj hw]

end Tells

/-- A text of letters, digits and points is **a plain word**. -/
theorem plain_of_forall {w : String} (hne : w.toList ≠ [])
    (h : ∀ c ∈ w.toList, IsLetter c ∨ IsDigit c ∨ c = '.') : Plain w where
  ne_nil := hne
  plain c hc hmem := by
    have hclass := h c hc
    simp only [List.mem_cons, List.not_mem_nil, or_false] at hmem
    rcases hmem with rfl | rfl | rfl | rfl | rfl <;> revert hclass <;> decide

/-- **A word that tells an expression can be read off.** -/
theorem Tells.isWord {w : String} {e : Expr} (h : Tells w e) : IsWord w := by
  cases h with
  | quoted => exact .inr ⟨_, rfl⟩
  | lexeme h htext he =>
    refine .inl ?_
    generalize hcs : w.toList = cs at h
    have hw : w = String.ofList cs := by rw [← hcs, String.ofList_toList]
    have hword {cs : List Char} (h : cs ∈ Pattern.word.language) : Plain (String.ofList cs) := by
      obtain ⟨c, cs, rfl, hc, hcs⟩ := mem_word.mp h
      refine plain_of_forall (by simp) ?_
      rw [String.toList_ofList]
      exact List.forall_mem_cons.mpr ⟨.inl hc, fun d hd => (hcs d hd).imp_right .inl⟩
    cases h with
    | keyword k => exact hw ▸ hword (Pattern.keyword_mem_word k)
    | name h => exact hw ▸ hword h
    | number h =>
      obtain ⟨c, cs, rfl, hc, hcs'⟩ := mem_numeral.mp h
      subst hw
      refine plain_of_forall (by simp) ?_
      rw [String.toList_ofList]
      exact List.forall_mem_cons.mpr ⟨.inr (.inl hc), fun d hd => .inr (hcs' d hd)⟩
    | text => exact absurd rfl (htext _)
    | operator | mark => cases he

theorem IsName.isWord {name : String} (h : IsName name) : IsWord name :=
  (Tells.lexeme h nofun rfl).isWord

/-! ### Where the words come from -/

@[simp] theorem Expr.word?_withSpan (e : Expr) (s : Span) : (e.withSpan s).word? = e.word? := by
  cases e <;> rfl

@[simp] theorem Expr.word?_mapSpan (f : Span → Span) (e : Expr) :
    (e.mapSpan f).word? = e.word? := by
  cases e <;> rfl

@[simp] theorem Expr.withSpan_unplaced (e : Expr) :
    (e.mapSpan Span.unplaced).withSpan .none = e.mapSpan Span.unplaced := by
  cases e <;> rfl

/-- The expression that a phrase is. -/
def Phrase.expr? : Phrase → Option Expr
  | primary e | call e | unary e | level _ e | expression e => some e
  | _ => none

/-- **What an expression without parts is** is told by one of its tokens. -/
theorem Derives.exists_leaf {n : Nat} {phrase : Phrase} {ts rest : List Token}
    (h : Derives n phrase ts rest) : ∀ e ∈ phrase.expr?, e.word? ≠ none →
      ∃ t ∈ ts, t.kind.leaf? = some (e.mapSpan Span.unplaced) := by
  induction h with
  | number | text | truth | falsehood | builtin =>
    rintro _ ⟨⟩ -
    exact ⟨_, List.mem_cons_self, rfl⟩
  | name htrue hfalse =>
    rintro _ ⟨⟩ -
    refine ⟨_, List.mem_cons_self, ?_⟩
    rw [Token.Kind.leaf?, Expr.ofName, if_neg htrue, if_neg hfalse]
    rfl
  | parentheses _ ih =>
    rintro _ ⟨⟩ hword
    obtain ⟨t, ht, hkind⟩ := ih _ rfl (by simpa using hword)
    refine ⟨t, List.mem_cons_of_mem _ ht, hkind.trans ?_⟩
    rw [Expr.mapSpan_withSpan, Span.unplaced, Expr.withSpan_unplaced]
  | callee _ ih | unsigned _ ih | tightest _ ih | operand _ _ ih | expression _ _ ih => exact ih
  | application | signed =>
    rintro _ ⟨⟩ hword
    exact absurd rfl hword
  | @operation _ _ _ _ op =>
    rintro _ ⟨⟩ hword
    cases op <;> exact absurd rfl hword
  | _ => exact fun e he => absurd he (Option.not_mem_none e)

/-- A number literal that was scanned is **told by how the number is listed**, if it is finite. -/
theorem Tells.of_number {w : List Char} {x : Float} (h : Lexeme.Denotes w (.number x))
    (hx : x.isFinite) : Tells (NumberStyle.listed.write x) (.literal (.number x) .none) := by
  cases h with
  | @number _ _ d =>
    have hle : d.nearest ≤ Binary64.infinityCode := Nat.min_le_left ..
    have hpositive : ¬ Binary64.isNegative (Binary64.ofCode false d.nearest) := by
      rw [Binary64.isNegative_ofCode hle]
      exact Bool.false_ne_true
    rw [NumberStyle.write_eq _ hx, if_neg hpositive,
      if_neg fun hlt => hpositive ((Binary64.lt_zero_iff hx).mp hlt).1, Binary64.code_ofCode hle]
    have hdenotes := Lexeme.denotes_numeral hle
    rw [← String.toList_ofList (l := Decimal.numeral d.nearest)] at hdenotes
    exact .lexeme hdenotes nofun rfl

/-- **Every token but the last was taken from a lexeme** that denotes it. -/
theorem Scanned.exists_denotes {source : String} {tokens : List Token}
    (h : Scanned 0 source.toList tokens) {t : Token} (ht : t ∈ tokens)
    (hkind : t.kind ≠ .endOfInput) : ∃ w, Lexeme.Denotes w t.kind := by
  rcases h.exists_cuts_or_eq ht with ⟨text, -, hdenotes⟩ | rfl
  · exact ⟨text.toList, hdenotes⟩
  · exact absurd rfl hkind

theorem Expr.word?_ofName (name : String) (span : Span) :
    (Expr.ofName name span).word? = some name := by
  unfold Expr.ofName
  split
  · next h => rw [h]; rfl
  split
  · next h => rw [h]; rfl
  · rfl

/-- Where a token of a source is an expression, **its word tells the expression**. -/
theorem Scanned.tells {source : String} {tokens : List Token}
    (h : Scanned 0 source.toList tokens) {t : Token} (ht : t ∈ tokens) {e : Expr} {w : String}
    (hkind : t.kind.leaf? = some e) (hw : e.word? = some w)
    (hfinite : ∀ x, e = .literal (.number x) .none → x.isFinite) : Tells w e := by
  obtain ⟨kind, span⟩ := t
  cases kind with
  | number x =>
    cases hkind
    cases hw
    obtain ⟨w, hdenotes⟩ := h.exists_denotes ht nofun
    exact .of_number hdenotes (hfinite x rfl)
  | text s =>
    cases hkind
    cases hw
    exact .quoted
  | identifier name =>
    cases hkind
    rw [Expr.word?_ofName] at hw
    cases hw
    exact .lexeme (h.isName ht rfl) nofun rfl
  | keyword k =>
    cases k <;> cases hkind
    cases hw
    exact .lexeme (.keyword .print) nofun rfl
  | operator | mark | endOfInput => cases hkind

/-! ### Legible trees -/

/-- Nodes **of which every word can be read off**, and with every node all below it. -/
structure Legible (Has : Node → Prop) : Prop where
  /-- What is below a node is among the nodes. -/
  child {node child} : Has node → child ∈ node.children → Has child
  /-- Expressions without parts are told by their words. -/
  leaf {e w} : Has (.expr e) → e.word? = some w → Tells w (e.mapSpan Span.unplaced)
  /-- What is introduced are names. -/
  isName {s name} : Has (.stmt s) → name ∈ s.introduces → IsName name

/-- The number literals of a program are **finite**. -/
def Program.NumbersFinite (p : Program) : Prop :=
  ∀ x span, p.Has (.expr (.literal (.number x) span)) → x.isFinite

/-- **A program that was read is legible**, if its numbers are finite. -/
theorem Program.legible {source : String} {p : Program} (hp : Program.ofSource source = .ok p)
    (hfinite : p.NumbersFinite) : Legible p.Has where
  child := .child
  leaf {e w} he hw := by
    obtain ⟨body, stop, hscanned, hspelled⟩ := Program.exists_scanned hp
    obtain ⟨part, ⟨before, after, rfl⟩, hpart⟩ := he.spelled hspelled
    obtain ⟨t, ht, hkind⟩ := Derives.exists_leaf hpart e rfl (by rw [hw]; nofun)
    refine hscanned.tells (t := t) (by simp [ht]) hkind (by simpa using hw) fun x hx => ?_
    obtain ⟨span, rfl⟩ : ∃ span, e = .literal (.number x) span := by
      cases e <;> cases hx
      exact ⟨_, rfl⟩
    exact hfinite x span he
  isName hs hname := Program.Has.isName hp hs hname

/-! ### Words of the listing itself -/

theorem BinaryOp.isWord_symbol (op : BinaryOp) : IsWord op.symbol := by
  cases op <;> exact .inl (.of_all (by simp [symbol]) (by simp [symbol]))

theorem LogicalOp.isWord_symbol (op : LogicalOp) : IsWord op.symbol := by
  cases op <;> exact .inl (.of_all (by simp [symbol]) (by simp [symbol]))

theorem UnaryOp.isWord_symbol (op : UnaryOp) : IsWord op.symbol := by
  cases op <;> exact .inl (.of_all (by simp [symbol]) (by simp [symbol]))

/-- The words at the head of **what is no operation**. -/
def headWords : List String :=
  ["call", "declare", "print", "if", "while", "function", "return", "block"]

theorem isWord_of_mem_headWords {w : String} (h : w ∈ headWords) : IsWord w := by
  simp only [headWords, List.mem_cons, List.not_mem_nil, or_false] at h
  rcases h with rfl | rfl | rfl | rfl | rfl | rfl | rfl | rfl <;>
    exact .inl (.of_all (by simp) (by simp))

theorem BinaryOp.symbol_inj {op op' : BinaryOp} (h : op.symbol = op'.symbol) : op = op' := by
  revert h
  cases op <;> cases op' <;> simp [symbol]

theorem LogicalOp.symbol_inj {op op' : LogicalOp} (h : op.symbol = op'.symbol) : op = op' := by
  revert h
  cases op <;> cases op' <;> simp [symbol]

theorem UnaryOp.symbol_inj {op op' : UnaryOp} (h : op.symbol = op'.symbol) : op = op' := by
  revert h
  cases op <;> cases op' <;> simp [symbol]

/-- **No sign is a word at a head.** -/
theorem BinaryOp.symbol_not_mem (op : BinaryOp) : op.symbol ∉ headWords := by
  cases op <;> simp [symbol, headWords]

theorem LogicalOp.symbol_not_mem (op : LogicalOp) : op.symbol ∉ headWords := by
  cases op <;> simp [symbol, headWords]

theorem UnaryOp.symbol_not_mem (op : UnaryOp) : op.symbol ∉ headWords := by
  cases op <;> simp [symbol, headWords]

theorem BinaryOp.symbol_ne_logical (op : BinaryOp) (op' : LogicalOp) : op.symbol ≠ op'.symbol := by
  cases op <;> cases op' <;> simp [symbol, LogicalOp.symbol]

namespace Legible

variable {Has : Node → Prop}

mutual

/-- **Expressions** are legible. -/
theorem expr (hP : Legible Has) : ∀ {e : Expr}, Has (.expr e) → e.listed.Legible
  | .literal _ _, h => (hP.leaf h rfl).isWord
  | .name _ _, h => (hP.leaf h rfl).isWord
  | .binary op _ _ _, h => ⟨op.isWord_symbol, expr hP (hP.child h (by simp [Node.children])),
      expr hP (hP.child h (by simp [Node.children])), trivial⟩
  | .logical op _ _ _, h => ⟨op.isWord_symbol, expr hP (hP.child h (by simp [Node.children])),
      expr hP (hP.child h (by simp [Node.children])), trivial⟩
  | .unary op _ _, h =>
    ⟨op.isWord_symbol, expr hP (hP.child h (by simp [Node.children])), trivial⟩
  | .call _ _ _, h => ⟨isWord_of_mem_headWords (by decide),
      expr hP (hP.child h (by simp [Node.children])),
      exprs hP fun e he => hP.child h (by simp [Node.children, he])⟩

theorem exprs (hP : Legible Has) : ∀ {es : List Expr}, (∀ e ∈ es, Has (.expr e)) →
    Listed.LegibleAll (Expr.listedAll es)
  | [], _ => trivial
  | e :: _, h => ⟨expr hP (h e List.mem_cons_self),
      exprs hP fun e' he' => h e' (List.mem_cons_of_mem e he')⟩

end

/-- Parameters are legible. -/
theorem params {ps : List String} (h : ∀ p ∈ ps, IsName p) :
    Listed.LegibleAll (ps.map .word) := by
  induction ps with
  | nil => trivial
  | cons p ps ih =>
    obtain ⟨hp, hps⟩ := List.forall_mem_cons.mp h
    exact ⟨hp.isWord, ih hps⟩

mutual

/-- **Statements** are legible. -/
theorem stmt (hP : Legible Has) : ∀ {s : Stmt}, Has (.stmt s) → s.listed.Legible
  | .declare _ none _, h => ⟨isWord_of_mem_headWords (by decide),
      (hP.isName h List.mem_cons_self).isWord, trivial⟩
  | .declare _ (some _) _, h => ⟨isWord_of_mem_headWords (by decide),
      (hP.isName h List.mem_cons_self).isWord, hP.expr (hP.child h (by simp [Node.children])),
      trivial⟩
  | .print _ _, h => ⟨isWord_of_mem_headWords (by decide),
      hP.expr (hP.child h (by simp [Node.children])), trivial⟩
  | .block _, h => block hP (hP.child h (by simp [Node.children]))
  | .conditional _ _ none _, h => ⟨isWord_of_mem_headWords (by decide),
      hP.expr (hP.child h (by simp [Node.children])),
      block hP (hP.child h (by simp [Node.children])), trivial⟩
  | .conditional _ _ (some _) _, h => ⟨isWord_of_mem_headWords (by decide),
      hP.expr (hP.child h (by simp [Node.children])),
      block hP (hP.child h (by simp [Node.children])),
      block hP (hP.child h (by simp [Node.children])), trivial⟩
  | .loop _ _ _, h => ⟨isWord_of_mem_headWords (by decide),
      hP.expr (hP.child h (by simp [Node.children])),
      block hP (hP.child h (by simp [Node.children])), trivial⟩
  | .function _ _ _ _, h => ⟨isWord_of_mem_headWords (by decide),
      (hP.isName h List.mem_cons_self).isWord,
      params fun p hp => hP.isName h (List.mem_cons_of_mem _ hp),
      block hP (hP.child h (by simp [Node.children])), trivial⟩
  | .exit _ _, h => ⟨isWord_of_mem_headWords (by decide),
      hP.expr (hP.child h (by simp [Node.children])), trivial⟩
  | .expression _, h => hP.expr (hP.child h (by simp [Node.children]))

theorem block (hP : Legible Has) : ∀ {b : Block}, Has (.block b) → b.listed.Legible
  | .mk _ _, h => ⟨isWord_of_mem_headWords (by decide),
      stmts hP fun s hs => hP.child h (by simp [Node.children, Block.statements, hs])⟩

theorem stmts (hP : Legible Has) : ∀ {ss : List Stmt}, (∀ s ∈ ss, Has (.stmt s)) →
    Listed.LegibleAll (Stmt.listedAll ss)
  | [], _ => trivial
  | s :: _, h => ⟨stmt hP (h s List.mem_cons_self),
      stmts hP fun s' hs' => h s' (List.mem_cons_of_mem s hs')⟩

end

end Legible

/-! ### Items as trees -/

theorem Expr.word?_of_listed {e : Expr} {w : String} (h : e.listed = .word w) :
    e.word? = some w := by
  cases e <;> cases h <;> rfl

section Inversion

variable {e : Expr} {w : String} {x y : Listed} {xs : List Listed}

/-- **At the head of an expression** is the word for calls or a sign. -/
theorem Expr.eq_call_of_head (h : e.listed = .list (.word w :: xs)) (hw : w ∈ headWords) :
    w = "call" := by
  revert hw
  cases e with
  | literal | name => cases h
  | binary op | logical op | unary op =>
    cases h
    exact fun hw => absurd hw op.symbol_not_mem
  | call =>
    cases h
    exact fun _ => rfl

theorem Expr.of_listed_binary {op : BinaryOp} (h : e.listed = .list [.word op.symbol, x, y]) :
    ∃ l r span, e = .binary op l r span ∧ l.listed = x ∧ r.listed = y := by
  cases e with
  | binary op' l r span =>
    simp only [Expr.listed, Listed.list.injEq, List.cons.injEq, Listed.word.injEq, and_true] at h
    obtain ⟨hop, hl, hr⟩ := h
    exact ⟨l, r, span, by rw [BinaryOp.symbol_inj hop], hl, hr⟩
  | logical op' =>
    simp only [Expr.listed, Listed.list.injEq, List.cons.injEq, Listed.word.injEq] at h
    exact absurd h.1.symm (op.symbol_ne_logical op')
  | call =>
    simp only [Expr.listed, Listed.list.injEq, List.cons.injEq, Listed.word.injEq] at h
    exact absurd (h.1 ▸ List.mem_cons_self) op.symbol_not_mem
  | _ => simp [Expr.listed] at h

theorem Expr.of_listed_logical {op : LogicalOp} (h : e.listed = .list [.word op.symbol, x, y]) :
    ∃ l r span, e = .logical op l r span ∧ l.listed = x ∧ r.listed = y := by
  cases e with
  | logical op' l r span =>
    simp only [Expr.listed, Listed.list.injEq, List.cons.injEq, Listed.word.injEq, and_true] at h
    obtain ⟨hop, hl, hr⟩ := h
    exact ⟨l, r, span, by rw [LogicalOp.symbol_inj hop], hl, hr⟩
  | binary op' =>
    simp only [Expr.listed, Listed.list.injEq, List.cons.injEq, Listed.word.injEq] at h
    exact absurd h.1 (op'.symbol_ne_logical op)
  | call =>
    simp only [Expr.listed, Listed.list.injEq, List.cons.injEq, Listed.word.injEq] at h
    exact absurd (h.1 ▸ List.mem_cons_self) op.symbol_not_mem
  | _ => simp [Expr.listed] at h

theorem Expr.of_listed_unary {op : UnaryOp} (h : e.listed = .list [.word op.symbol, x]) :
    ∃ o span, e = .unary op o span ∧ o.listed = x := by
  cases e with
  | unary op' o span =>
    simp only [Expr.listed, Listed.list.injEq, List.cons.injEq, Listed.word.injEq, and_true] at h
    exact ⟨o, span, by rw [UnaryOp.symbol_inj h.1], h.2⟩
  | call =>
    simp only [Expr.listed, Listed.list.injEq, List.cons.injEq, Listed.word.injEq] at h
    exact absurd (h.1 ▸ List.mem_cons_self) op.symbol_not_mem
  | _ => simp [Expr.listed] at h

theorem Expr.of_listed_call (h : e.listed = .list (.word "call" :: x :: xs)) :
    ∃ f args span, e = .call f args span ∧ f.listed = x ∧ Expr.listedAll args = xs := by
  cases e with
  | call f args span =>
    simp only [Expr.listed, Listed.list.injEq, List.cons.injEq, true_and] at h
    exact ⟨f, args, span, rfl, h.1, h.2⟩
  | literal | name => cases h
  | binary op | logical op | unary op =>
    simp only [Expr.listed, Listed.list.injEq, List.cons.injEq, Listed.word.injEq] at h
    exact absurd (h.1 ▸ List.mem_cons_self) op.symbol_not_mem

/-- The **word at the head** of a statement that is no expression. -/
def Stmt.headWord? : Stmt → Option String
  | declare _ _ _ => some "declare"
  | print _ _ => some "print"
  | block _ => some "block"
  | conditional _ _ _ _ => some "if"
  | loop _ _ _ => some "while"
  | function _ _ _ _ => some "function"
  | exit _ _ => some "return"
  | expression _ => none

/-- A statement is an expression, or is **listed with its word at the head**. -/
theorem Stmt.headWord?_cases (s : Stmt) :
    (s.headWord? = none ∧ ∃ e, s.listed = Expr.listed e) ∨
      ∃ w xs, s.headWord? = some w ∧ w ∈ headWords ∧ w ≠ "call" ∧
        s.listed = .list (.word w :: xs) := by
  cases s with
  | declare _ init _ => cases init <;> exact .inr ⟨_, _, rfl, by decide, by decide, rfl⟩
  | conditional _ _ c _ => cases c <;> exact .inr ⟨_, _, rfl, by decide, by decide, rfl⟩
  | block b => cases b; exact .inr ⟨_, _, rfl, by decide, by decide, rfl⟩
  | expression e => exact .inl ⟨rfl, e, rfl⟩
  | _ => exact .inr ⟨_, _, rfl, by decide, by decide, rfl⟩

/-- **Statements of different sorts are listed differently.** -/
theorem Stmt.headWord?_eq {s s' : Stmt} (h : s.listed = s'.listed) :
    s.headWord? = s'.headWord? := by
  rcases s.headWord?_cases with ⟨hs, e, he⟩ | ⟨w, xs, hs, hw, hcall, hxs⟩ <;>
    rcases s'.headWord?_cases with ⟨hs', e', he'⟩ | ⟨w', xs', hs', hw', hcall', hxs'⟩
  · rw [hs, hs']
  · exact absurd (Expr.eq_call_of_head (he.symm.trans (h.trans hxs')) hw') hcall'
  · exact absurd (Expr.eq_call_of_head (he'.symm.trans (h.symm.trans hxs)) hw) hcall
  · have hlists := hxs.symm.trans (h.trans hxs')
    cases hlists
    rw [hs, hs']

end Inversion

namespace Legible

variable {Has : Node → Prop}

mutual

/-- **Expressions are determined** by the items that they are listed as. -/
theorem expr_inj (hP : Legible Has) : ∀ {e e' : Expr}, Has (.expr e) → Has (.expr e') →
    e.listed = e'.listed → e.mapSpan Span.unplaced = e'.mapSpan Span.unplaced
  | .literal _ _, _, h, h', heq =>
    (hP.leaf h rfl).unique (hP.leaf h' (Expr.word?_of_listed heq.symm))
  | .name _ _, _, h, h', heq =>
    (hP.leaf h rfl).unique (hP.leaf h' (Expr.word?_of_listed heq.symm))
  | .binary op l r _, e', h, h', heq => by
    obtain ⟨l', r', _, rfl, hl, hr⟩ := Expr.of_listed_binary heq.symm
    have hleft := expr_inj hP (hP.child h (by simp [Node.children]))
      (hP.child h' (by simp [Node.children])) hl.symm
    have hright := expr_inj hP (hP.child h (by simp [Node.children]))
      (hP.child h' (by simp [Node.children])) hr.symm
    simp only [Expr.mapSpan, hleft, hright, Span.unplaced]
  | .logical op l r _, e', h, h', heq => by
    obtain ⟨l', r', _, rfl, hl, hr⟩ := Expr.of_listed_logical heq.symm
    have hleft := expr_inj hP (hP.child h (by simp [Node.children]))
      (hP.child h' (by simp [Node.children])) hl.symm
    have hright := expr_inj hP (hP.child h (by simp [Node.children]))
      (hP.child h' (by simp [Node.children])) hr.symm
    simp only [Expr.mapSpan, hleft, hright, Span.unplaced]
  | .unary op e _, e', h, h', heq => by
    obtain ⟨o, _, rfl, ho⟩ := Expr.of_listed_unary heq.symm
    have hoperand := expr_inj hP (hP.child h (by simp [Node.children]))
      (hP.child h' (by simp [Node.children])) ho.symm
    simp only [Expr.mapSpan, hoperand, Span.unplaced]
  | .call f args _, e', h, h', heq => by
    obtain ⟨f', args', _, rfl, hf, hargs⟩ := Expr.of_listed_call heq.symm
    have hcallee := expr_inj hP (hP.child h (by simp [Node.children]))
      (hP.child h' (by simp [Node.children])) hf.symm
    have harguments := exprs_inj hP (fun e he => hP.child h (by simp [Node.children, he]))
      (fun e he => hP.child h' (by simp [Node.children, he])) hargs.symm
    simp only [Expr.mapSpan, hcallee, harguments, Span.unplaced]

theorem exprs_inj (hP : Legible Has) : ∀ {es es' : List Expr}, (∀ e ∈ es, Has (.expr e)) →
    (∀ e ∈ es', Has (.expr e)) → Expr.listedAll es = Expr.listedAll es' →
      Expr.mapSpanAll Span.unplaced es = Expr.mapSpanAll Span.unplaced es'
  | [], [], _, _, _ => rfl
  | [], _ :: _, _, _, heq => nomatch heq
  | _ :: _, [], _, _, heq => nomatch heq
  | e :: es, e' :: es', h, h', heq => by
    obtain ⟨he, hes⟩ := List.cons.inj heq
    obtain ⟨hhead, htail⟩ := List.forall_mem_cons.mp h
    obtain ⟨hhead', htail'⟩ := List.forall_mem_cons.mp h'
    rw [Expr.mapSpanAll, Expr.mapSpanAll, expr_inj hP hhead hhead' he,
      exprs_inj hP htail htail' hes]

end

theorem params_inj : ∀ {ps ps' : List String},
    ps.map Listed.word = ps'.map Listed.word → ps = ps'
  | [], [], _ => rfl
  | [], _ :: _, h => nomatch h
  | _ :: _, [], h => nomatch h
  | p :: ps, p' :: ps', h => by
    obtain ⟨hp, hps⟩ := List.cons.inj h
    rw [Listed.word.inj hp, params_inj hps]

mutual

/-- **Statements are determined** by the items that they are listed as. -/
theorem stmt_inj (hP : Legible Has) : ∀ {s s' : Stmt}, Has (.stmt s) → Has (.stmt s') →
    s.listed = s'.listed → s.mapSpan Span.unplaced = s'.mapSpan Span.unplaced
  | .declare name init _, s', h, h', heq => by
    have hhead := Stmt.headWord?_eq heq
    obtain ⟨name', init', _, rfl⟩ : ∃ name' init' span, s' = .declare name' init' span := by
      cases s' <;> first | exact ⟨_, _, _, rfl⟩ | simp [Stmt.headWord?] at hhead
    cases init with
    | none =>
      cases init' with
      | none =>
        cases heq
        rfl
      | some e' => simp [Stmt.listed] at heq
    | some e =>
      cases init' with
      | none => simp [Stmt.listed] at heq
      | some e' =>
        simp only [Stmt.listed, Listed.list.injEq, List.cons.injEq, Listed.word.injEq, true_and,
          and_true] at heq
        have hvalue := hP.expr_inj (hP.child h (by simp [Node.children]))
          (hP.child h' (by simp [Node.children])) heq.2
        simp only [Stmt.mapSpan, heq.1, hvalue, Span.unplaced]
  | .print e _, s', h, h', heq => by
    have hhead := Stmt.headWord?_eq heq
    obtain ⟨e', _, rfl⟩ : ∃ e' span, s' = .print e' span := by
      cases s' <;> first | exact ⟨_, _, rfl⟩ | simp [Stmt.headWord?] at hhead
    simp only [Stmt.listed, Listed.list.injEq, List.cons.injEq, true_and, and_true] at heq
    have hvalue := hP.expr_inj (hP.child h (by simp [Node.children]))
      (hP.child h' (by simp [Node.children])) heq
    simp only [Stmt.mapSpan, hvalue, Span.unplaced]
  | .block b, s', h, h', heq => by
    have hhead := Stmt.headWord?_eq heq
    obtain ⟨b', rfl⟩ : ∃ b', s' = .block b' := by
      cases s' <;> first | exact ⟨_, rfl⟩ | simp [Stmt.headWord?] at hhead
    have hblock := block_inj hP (hP.child h (by simp [Node.children]))
      (hP.child h' (by simp [Node.children])) heq
    simp only [Stmt.mapSpan, hblock]
  | .conditional test b c _, s', h, h', heq => by
    have hhead := Stmt.headWord?_eq heq
    obtain ⟨test', b', c', _, rfl⟩ : ∃ test' b' c' span, s' = .conditional test' b' c' span := by
      cases s' <;> first | exact ⟨_, _, _, _, rfl⟩ | simp [Stmt.headWord?] at hhead
    cases c with
    | none =>
      cases c' with
      | none =>
        simp only [Stmt.listed, Listed.list.injEq, List.cons.injEq, true_and, and_true] at heq
        have htest := hP.expr_inj (hP.child h (by simp [Node.children]))
          (hP.child h' (by simp [Node.children])) heq.1
        have hblock := block_inj hP (hP.child h (by simp [Node.children]))
          (hP.child h' (by simp [Node.children])) heq.2
        simp only [Stmt.mapSpan, htest, hblock, Span.unplaced]
      | some c' => simp [Stmt.listed] at heq
    | some c =>
      cases c' with
      | none => simp [Stmt.listed] at heq
      | some c' =>
        simp only [Stmt.listed, Listed.list.injEq, List.cons.injEq, true_and, and_true] at heq
        have htest := hP.expr_inj (hP.child h (by simp [Node.children]))
          (hP.child h' (by simp [Node.children])) heq.1
        have hblock := block_inj hP (hP.child h (by simp [Node.children]))
          (hP.child h' (by simp [Node.children])) heq.2.1
        have hother := block_inj hP (hP.child h (by simp [Node.children]))
          (hP.child h' (by simp [Node.children])) heq.2.2
        simp only [Stmt.mapSpan, htest, hblock, hother, Span.unplaced]
  | .loop test b _, s', h, h', heq => by
    have hhead := Stmt.headWord?_eq heq
    obtain ⟨test', b', _, rfl⟩ : ∃ test' b' span, s' = .loop test' b' span := by
      cases s' <;> first | exact ⟨_, _, _, rfl⟩ | simp [Stmt.headWord?] at hhead
    simp only [Stmt.listed, Listed.list.injEq, List.cons.injEq, true_and, and_true] at heq
    have htest := hP.expr_inj (hP.child h (by simp [Node.children]))
      (hP.child h' (by simp [Node.children])) heq.1
    have hbody := block_inj hP (hP.child h (by simp [Node.children]))
      (hP.child h' (by simp [Node.children])) heq.2
    simp only [Stmt.mapSpan, htest, hbody, Span.unplaced]
  | .function name ps b _, s', h, h', heq => by
    have hhead := Stmt.headWord?_eq heq
    obtain ⟨name', ps', b', _, rfl⟩ : ∃ name' ps' b' span, s' = .function name' ps' b' span := by
      cases s' <;> first | exact ⟨_, _, _, _, rfl⟩ | simp [Stmt.headWord?] at hhead
    simp only [Stmt.listed, Listed.list.injEq, List.cons.injEq, Listed.word.injEq, true_and,
      and_true] at heq
    obtain ⟨hname, hparams, hbody⟩ := heq
    have hblock := block_inj hP (hP.child h (by simp [Node.children]))
      (hP.child h' (by simp [Node.children])) hbody
    simp only [Stmt.mapSpan, hname, params_inj hparams, hblock, Span.unplaced]
  | .exit e _, s', h, h', heq => by
    have hhead := Stmt.headWord?_eq heq
    obtain ⟨e', _, rfl⟩ : ∃ e' span, s' = .exit e' span := by
      cases s' <;> first | exact ⟨_, _, rfl⟩ | simp [Stmt.headWord?] at hhead
    simp only [Stmt.listed, Listed.list.injEq, List.cons.injEq, true_and, and_true] at heq
    have hvalue := hP.expr_inj (hP.child h (by simp [Node.children]))
      (hP.child h' (by simp [Node.children])) heq
    simp only [Stmt.mapSpan, hvalue, Span.unplaced]
  | .expression e, s', h, h', heq => by
    have hhead := Stmt.headWord?_eq heq
    obtain ⟨e', rfl⟩ : ∃ e', s' = .expression e' := by
      cases s' <;> first | exact ⟨_, rfl⟩ | simp [Stmt.headWord?] at hhead
    have hvalue := hP.expr_inj (hP.child h (by simp [Node.children]))
      (hP.child h' (by simp [Node.children])) heq
    simp only [Stmt.mapSpan, hvalue]

theorem block_inj (hP : Legible Has) : ∀ {b b' : Block}, Has (.block b) → Has (.block b') →
    b.listed = b'.listed → b.mapSpan Span.unplaced = b'.mapSpan Span.unplaced
  | .mk ss _, .mk ss' _, h, h', heq => by
    simp only [Block.listed, Listed.list.injEq, List.cons.injEq, true_and] at heq
    have hstatements := stmts_inj hP
      (fun s hs => hP.child h (by simp [Node.children, Block.statements, hs]))
      (fun s hs => hP.child h' (by simp [Node.children, Block.statements, hs])) heq
    simp only [Block.mapSpan, hstatements, Span.unplaced]

theorem stmts_inj (hP : Legible Has) : ∀ {ss ss' : List Stmt}, (∀ s ∈ ss, Has (.stmt s)) →
    (∀ s ∈ ss', Has (.stmt s)) → Stmt.listedAll ss = Stmt.listedAll ss' →
      Stmt.mapSpanAll Span.unplaced ss = Stmt.mapSpanAll Span.unplaced ss'
  | [], [], _, _, _ => rfl
  | [], _ :: _, _, _, heq => nomatch heq
  | _ :: _, [], _, _, heq => nomatch heq
  | s :: ss, s' :: ss', h, h', heq => by
    obtain ⟨hs, hss⟩ := List.cons.inj heq
    obtain ⟨hhead, htail⟩ := List.forall_mem_cons.mp h
    obtain ⟨hhead', htail'⟩ := List.forall_mem_cons.mp h'
    rw [Stmt.mapSpanAll, Stmt.mapSpanAll, stmt_inj hP hhead hhead' hs,
      stmts_inj hP htail htail' hss]

end

/-- Nodes of two programs are legible **together**. -/
theorem or {Has' : Node → Prop} (hP : Legible Has) (hP' : Legible Has') :
    Legible fun node => Has node ∨ Has' node where
  child h hchild := h.imp (hP.child · hchild) (hP'.child · hchild)
  leaf h hw := h.elim (hP.leaf · hw) (hP'.leaf · hw)
  isName h hname := h.elim (hP.isName · hname) (hP'.isName · hname)

end Legible

/-- **The listing determines the program.** Two programs that were read, with finite numbers only,
and are listed alike are the same, but for the places of their nodes. -/
theorem listing_determines {source source' : String} {p q : Program}
    (hp : Program.ofSource source = .ok p) (hq : Program.ofSource source' = .ok q)
    (hpfinite : p.NumbersFinite) (hqfinite : q.NumbersFinite) (h : p.listing = q.listing) :
    p.mapSpan Span.unplaced = q.mapSpan Span.unplaced := by
  have hP := (Program.legible hp hpfinite).or (Program.legible hq hqfinite)
  have hpstmts : ∀ s ∈ p.statements, p.Has (.stmt s) ∨ q.Has (.stmt s) :=
    fun s hs => .inl (.statement hs)
  have hqstmts : ∀ s ∈ q.statements, p.Has (.stmt s) ∨ q.Has (.stmt s) :=
    fun s hs => .inr (.statement hs)
  have hprint := congrArg String.toList h
  rw [Program.toList_listing, Program.toList_listing] at hprint
  have hitems := Listed.printAll_inj (by decide) (hP.stmts hpstmts) (hP.stmts hqstmts) hprint
  rw [Program.mapSpan, Program.mapSpan, hP.stmts_inj hpstmts hqstmts hitems]

/-- A string that holds a parenthesis, and the same string in parentheses. -/
theorem listing_determines_parentheses :
    ∃ p q : Program, Program.ofSource "\"(\"" = .ok p ∧ Program.ofSource "(\"(\")" = .ok q ∧
      p.NumbersFinite ∧ q.NumbersFinite ∧ p ≠ q ∧ p.listing = q.listing ∧
      p.mapSpan Span.unplaced = q.mapSpan Span.unplaced := by
  have hp : Program.ofSource "\"(\"" = .ok ⟨[.expression (.literal (.text "(") ⟨0, 3⟩)]⟩ := by
    have hscanned : Scanned 0 "\"(\"".toList _ := .token rfl .nil
    refine hscanned.ofSource_eq (Program.spelled_of_unary (.unsigned (.callee .text)) ?_)
    rintro ⟨_, _, ⟨⟩⟩
  have hq : Program.ofSource "(\"(\")" = .ok ⟨[.expression (.literal (.text "(") ⟨0, 5⟩)]⟩ := by
    have hscanned : Scanned 0 "(\"(\")".toList _ := .token rfl (.token rfl (.token rfl .nil))
    have hspelled : Program.Spelled ⟨[.expression (.literal (.text "(") ⟨0, 5⟩)]⟩
        [⟨.mark .leftParen, ⟨0, 1⟩⟩, ⟨.text "(", ⟨1, 4⟩⟩, ⟨.mark .rightParen, ⟨4, 5⟩⟩,
          ⟨.endOfInput, ⟨5, 5⟩⟩] := by
      have hinner (rest : List Token) : Derives (nestingLimit - 2) (.level InfixOp.levelCount _)
          (⟨.text "(", ⟨1, 4⟩⟩ :: rest) rest := .tightest (.unsigned (.callee .text))
      have hcomplete : Complete [⟨.mark .rightParen, ⟨4, 5⟩⟩, ⟨.endOfInput, ⟨5, 5⟩⟩] := by
        rintro _ ⟨⟩
        exact ⟨nofun, rfl⟩
      have hparentheses := @Derives.parentheses _ _ ⟨0, 1⟩ _ _ _
        (.expression ((hinner _).loosest (Nat.le_refl _)) hcomplete)
      refine Program.spelled_of_unary (.unsigned (.callee hparentheses)) ?_
      rintro ⟨_, _, ⟨⟩⟩
    exact hscanned.ofSource_eq hspelled
  have hfinite (span : Span) :
      (Program.mk [.expression (.literal (.text "(") span)]).NumbersFinite := by
    have hnodes {node : Node}
        (h : Program.Has ⟨[.expression (.literal (.text "(") span)]⟩ node) :
        node = .stmt (.expression (.literal (.text "(") span)) ∨
          node = .expr (.literal (.text "(") span) := by
      induction h with
      | statement h => exact .inl (by rw [List.mem_singleton.mp h])
      | child _ hchild ih =>
        rcases ih with rfl | rfl
        · exact .inr (by simpa [Node.children] using hchild)
        · simp [Node.children] at hchild
    intro x span' h
    rcases hnodes h with h | h <;> cases h
  have hlisting : (Program.mk [.expression (.literal (.text "(") ⟨0, 3⟩)]).listing =
      (Program.mk [.expression (.literal (.text "(") ⟨0, 5⟩)]).listing := rfl
  exact ⟨_, _, hp, hq, hfinite _, hfinite _, by simp, hlisting,
    listing_determines hp hq (hfinite _) (hfinite _) hlisting⟩

end ScopeScript
