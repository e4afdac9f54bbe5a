import ScopeScript.Proofs.Footprint
import ScopeScript.Proofs.MaximalMunch
import ScopeScript.Proofs.NodeText

/-!
# The names that programs declare

The grammar takes the names of variables, procedures and parameters **from tokens that are names**,
and the scanner makes a name of no word that is reserved. So whatever a program that was read from a
source introduces is a word, and none of the reserved ones (`ScopeScript.Program.Has.isName`).

A name that stands alone is scanned as itself, and is read as the expression of that name. There are
two exceptions: `true` and `false` are names for the scanner, but in an expression the grammar takes
them for truth values (`ScopeScript.Expr.ofName`, `ScopeScript.IsName.reads`).
-/

namespace ScopeScript

/-! ### Names as tokens -/

/-- The word is **a name**: as a lexeme, that is what it denotes. -/
def IsName (name : String) : Prop :=
  Lexeme.Denotes name.toList (.identifier name)

/-- **No reserved word** is a name. -/
theorem IsName.ne_keyword {name : String} (h : IsName name) (k : Keyword) : name ≠ k.spelling := by
  rintro rfl
  exact absurd (Lexeme.Denotes.unique h (.keyword k)) nofun

/-- A lexeme that denotes a name **is spelled as the name**. -/
theorem Lexeme.Denotes.isName {w : List Char} {name : String}
    (h : Lexeme.Denotes w (.identifier name)) : IsName name := by
  cases h with
  | name hword hfree =>
    rw [IsName, String.toList_ofList]
    exact .name hword hfree

/-- **Tokens that are names** have been taken from words. -/
theorem Scanned.isName {source : String} {tokens : List Token}
    (h : Scanned 0 source.toList tokens) {t : Token} (ht : t ∈ tokens) {name : String}
    (hkind : t.kind = .identifier name) : IsName name := by
  rcases h.exists_cuts_or_eq ht with ⟨text, -, hdenotes⟩ | rfl
  · exact (hkind ▸ hdenotes).isName
  · cases hkind

/-! ### Names in the grammar -/

/-- The names that a statement **introduces**: that of a variable, or those of a procedure and of
its parameters. -/
def Stmt.introduces : Stmt → List String
  | .declare name _ _ => [name]
  | .function name params _ _ => name :: params
  | _ => []

theorem Stmt.mem_introduces_of_declared {s : Stmt} {name : String} (h : s.declared = some name) :
    name ∈ s.introduces := by
  cases s <;> cases h <;> exact List.mem_cons_self

/-- The names that a phrase introduces at its top. -/
def Phrase.introduces : Phrase → List String
  | names ns | parameters ns => ns
  | bare s => s.introduces
  | _ => []

/-- **What a phrase introduces** are tokens of the phrase. -/
theorem Derives.introduces {n : Nat} {phrase : Phrase} {ts rest : List Token}
    (h : Derives n phrase ts rest) :
    ∀ name ∈ phrase.introduces, ∃ t ∈ ts, t.kind = .identifier name := by
  induction h with
  | oneName =>
    intro name hname
    rw [List.mem_singleton.mp hname]
    exact ⟨_, List.mem_cons_self, rfl⟩
  | moreNames _ ih =>
    intro name hname
    rcases List.mem_cons.mp hname with rfl | hname
    · exact ⟨_, List.mem_cons_self, rfl⟩
    · obtain ⟨t, ht, hkind⟩ := ih name hname
      exact ⟨t, List.mem_append_right [_, _] ht, hkind⟩
  | someParameters _ ih => exact ih
  | declare | declareAs =>
    intro name hname
    rw [List.mem_singleton.mp hname]
    exact ⟨_, List.mem_append_right [_] List.mem_cons_self, rfl⟩
  | function _ _ ih =>
    intro name hname
    rcases List.mem_cons.mp hname with rfl | hname
    · exact ⟨_, List.mem_append_right [_] List.mem_cons_self, rfl⟩
    · obtain ⟨t, ht, hkind⟩ := ih name hname
      exact ⟨t, List.mem_append_right [_, _, _] ht, hkind⟩
  | _ => exact fun _ hname => absurd hname List.not_mem_nil

/-- **All that a program introduces are names.** -/
theorem Program.Has.isName {source : String} {p : Program} (hp : Program.ofSource source = .ok p)
    {s : Stmt} (hs : p.Has (.stmt s)) {name : String} (hname : name ∈ s.introduces) :
    IsName name := by
  obtain ⟨body, stop, hscanned, hspelled⟩ := Program.exists_scanned hp
  obtain ⟨part, ⟨before, after, rfl⟩, hpart⟩ := hs.spelled hspelled
  obtain ⟨t, ht, hkind⟩ := Derives.introduces hpart name hname
  exact hscanned.isName (t := t) (by simp [ht]) hkind

/-! ### A name by itself -/

/-- **What a name is as an expression**: two names are truth values. -/
def Expr.ofName (name : String) (span : Span) : Expr :=
  if name = "true" then .literal (.boolean true) span
  else if name = "false" then .literal (.boolean false) span
  else .name name span

/-- The text is **read as the expression**, which takes all of it. -/
def Expr.Reads (text : String) (e : Expr) : Prop :=
  ∃ tokens last, tokenize text = .ok (tokens ++ [last]) ∧ last.kind = .endOfInput ∧
    Parser.expression nestingLimit (tokens ++ [last]) = (.ok e, [last])

/-- A name that stands alone is **scanned as the name**. -/
theorem Lexeme.Denotes.tokenize_eq {text : String} {kind : Token.Kind}
    (h : Lexeme.Denotes text.toList kind) :
    tokenize text = .ok ([⟨kind, ⟨0, text.utf8ByteSize⟩⟩] ++
      [⟨.endOfInput, ⟨text.utf8ByteSize, text.utf8ByteSize⟩⟩]) := by
  obtain ⟨c, cs, htext, hcut⟩ := h.first_eq
  have hscanned : Scanned 0 (c :: cs) _ := .token hcut .nil
  rw [← htext, Nat.zero_add, byteLength_toList] at hscanned
  exact tokensFrom_eq_ok_iff.mpr hscanned

/-- A single token that is an expression **is read as one**. -/
theorem Derives.expression_eq {e : Expr} {t : Token} {span : Span}
    (h : Derives (nestingLimit - 1) (.primary e) [t, ⟨.endOfInput, span⟩] [⟨.endOfInput, span⟩]) :
    Parser.expression nestingLimit [t, ⟨.endOfInput, span⟩] = (.ok e, [⟨.endOfInput, span⟩]) := by
  have hlevel := Derives.loosest (.tightest (.unsigned (.callee h))) (Nat.le_refl _)
  exact (hlevel.expression .atEnd).read

/-- **A name is read as its expression.** -/
theorem IsName.reads {name : String} (h : IsName name) :
    Expr.Reads name (.ofName name ⟨0, name.utf8ByteSize⟩) := by
  refine ⟨_, _, Lexeme.Denotes.tokenize_eq h, rfl, Derives.expression_eq ?_⟩
  rw [Expr.ofName]
  split
  · next htrue =>
    subst htrue
    exact .truth
  · next htrue =>
    split
    · next hfalse =>
      subst hfalse
      exact .falsehood
    · next hfalse => exact .name htrue hfalse

/-- **The word for printing** is read as the name of the builtin procedure. -/
theorem Keyword.reads_print :
    Expr.Reads Keyword.print.spelling (.name Keyword.print.spelling ⟨0, 5⟩) :=
  ⟨_, _, Lexeme.Denotes.tokenize_eq (.keyword .print), rfl, Derives.expression_eq .builtin⟩

end ScopeScript
