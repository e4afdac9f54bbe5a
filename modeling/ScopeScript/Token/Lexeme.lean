import ScopeScript.Token

/-!
# The lexeme at the front of a text

A text is cut into lexemes from the front, **each as long as it can be**. The first character tells
the sort of the lexeme that begins there: a word and a numeral run as far as their characters go, a
comment to the end of the line, a string literal to the next quote of its own kind that no backslash
escapes, and a sign of two characters is preferred to one of a single character.

## Main definitions

* `ScopeScript.Lexeme`: the sorts of lexemes, with the two that are in error.
* `ScopeScript.Lexeme.first`: cuts the first lexeme off a text.
* `ScopeScript.Lexeme.first_text_append_rest`: nothing is lost by the cut.
-/

namespace ScopeScript

/-- What a lexeme **amounts to**. -/
inductive Lexeme where
  /-- White space or a comment: no token. -/
  | blank
  /-- A token. -/
  | token (kind : Token.Kind)
  /-- A string literal that no quote closes. -/
  | unclosed
  /-- A character with which no token begins. -/
  | stray (c : Char)
deriving DecidableEq

/-- A text **cut in two** behind its first lexeme. -/
structure Lexeme.Cut where
  /-- What the lexeme amounts to. -/
  lexeme : Lexeme
  /-- The characters of the lexeme. -/
  text : List Char
  /-- The characters after it. -/
  rest : List Char

namespace Lexeme

/-! ### Classes of characters -/

/-- White space: the space, the tab, and the three characters that end a line or a page. -/
def isBlank (c : Char) : Bool :=
  c = ' ' || c = '\t' || c = '\n' || c = '\r' || c = '\x0c'

/-- A word begins with an ASCII letter or an underscore. -/
def beginsWord (c : Char) : Bool :=
  c.isAlpha || c = '_'

/-- A word goes on with ASCII letters, digits and underscores. -/
def continuesWord (c : Char) : Bool :=
  c.isAlphanum || c = '_'

/-- A numeral goes on with digits and points. -/
def continuesNumeral (c : Char) : Bool :=
  c.isDigit || c = '.'

/-- The two quotes that may enclose a string literal. -/
def isQuote (c : Char) : Bool :=
  c = '"' || c = '\x27'

/-! ### String literals -/

/-- What an **escaped character** denotes: a newline or a tab for two letters, itself otherwise. -/
def unescape (c : Char) : Char :=
  if c = 'n' then '\n' else if c = 't' then '\t' else c

/-- The text after an opening quote, cut in two behind the string literal. -/
structure Literal where
  /-- What the literal denotes, if it is closed. -/
  value? : Option (List Char)
  /-- The characters of the literal after the opening quote. -/
  text : List Char
  /-- The characters after the literal. -/
  rest : List Char

/-- The literal with one more character at its front. -/
def Literal.push (spelled : List Char) (denoted : Char) (l : Literal) : Literal :=
  ⟨l.value?.map (denoted :: ·), spelled ++ l.text, l.rest⟩

/-- Reads a string literal **from behind its opening quote**. A backslash takes the next character
with it, so a quote behind it does not close the literal; a backslash with nothing behind it ends
the reading before it. -/
def literal (quote : Char) : List Char → Literal
  | [] => ⟨none, [], []⟩
  | ['\\'] => ⟨none, [], ['\\']⟩
  | '\\' :: c :: cs => (literal quote cs).push ['\\', c] (unescape c)
  | c :: cs => if c = quote then ⟨some [], [c], cs⟩ else (literal quote cs).push [c] c

/-! ### Signs -/

/-- The operators and marks by their spelling, **the longer ones first**. -/
def signs : List (List Char × Token.Kind) :=
  [(['=', '='], .operator .doubleEqual),
   (['!', '='], .operator .unequal),
   (['>', '='], .operator .greaterEqual),
   (['<', '='], .operator .lessEqual),
   (['&', '&'], .operator .doubleAmp),
   (['|', '|'], .operator .doubleBar),
   (['+'], .operator .plus),
   (['-'], .operator .minus),
   (['*'], .operator .times),
   (['/'], .operator .dividedBy),
   (['%'], .operator .percent),
   (['>'], .operator .greater),
   (['<'], .operator .less),
   (['!'], .operator .bang),
   (['='], .mark .assign),
   (['('], .mark .leftParen),
   ([')'], .mark .rightParen),
   (['\x7b'], .mark .leftBrace),
   (['\x7d'], .mark .rightBrace),
   ([','], .mark .comma),
   ([';'], .mark .semicolon)]

/-! ### The first lexeme -/

/-- The token that a word is: a keyword if it is spelled as one, else a name. -/
def wordKind (word : List Char) : Token.Kind :=
  match Keyword.ofSpelling? (String.ofList word) with
  | some k => .keyword k
  | none => .identifier (String.ofList word)

/-- The token that a numeral is: the number nearest to the decimal that it spells. **Every numeral
is a number**: up to its second point, if it has one, it has a digit first, then digits with at most
one point among them, and these always spell a decimal (`ScopeScript.exists_valuePart`). -/
def numeralKind (numeral : List Char) : Token.Kind :=
  .number (Binary64.ofCode false (Decimal.ofNumeral numeral).nearest)

/-- Cuts behind the characters of a class. -/
def run (p : Char → Bool) (c : Char) (cs : List Char) (lexeme : List Char → Lexeme) : Cut :=
  ⟨lexeme (c :: cs.takeWhile p), c :: cs.takeWhile p, cs.dropWhile p⟩

/-- Cuts behind a **string literal** whose opening quote is `quote`. -/
def quotedCut (quote : Char) (cs : List Char) : Cut :=
  let l := literal quote cs
  match l.value? with
  | some value => ⟨.token (.text (String.ofList value)), quote :: l.text, l.rest⟩
  | none => ⟨.unclosed, quote :: l.text, l.rest⟩

/-- Cuts behind a **sign**, or behind a character that begins nothing. -/
def signCut (c : Char) (cs : List Char) : Cut :=
  match signs.find? fun s => s.1.isPrefixOf (c :: cs) with
  | some (sign, kind) => ⟨.token kind, sign, (c :: cs).drop sign.length⟩
  | none => ⟨.stray c, [c], cs⟩

/-- Cuts the **first lexeme** off the text that begins with `c`. -/
def first (c : Char) (cs : List Char) : Cut :=
  if isBlank c then ⟨.blank, [c], cs⟩
  else if beginsWord c then run continuesWord c cs fun word => .token (wordKind word)
  else if c.isDigit then run continuesNumeral c cs fun numeral => .token (numeralKind numeral)
  else if isQuote c then quotedCut c cs
  else if c = '/' ∧ cs.head? = some '/' then run (· ≠ '\n') c cs fun _ => .blank
  else signCut c cs

/-! ### Nothing is lost -/

theorem literal_text_append_rest (quote : Char) (cs : List Char) :
    (literal quote cs).text ++ (literal quote cs).rest = cs := by
  fun_induction literal quote cs <;> simp_all [Literal.push]

/-- Every sign has a character. -/
theorem sign_ne_nil {s : List Char × Token.Kind} (h : s ∈ signs) : s.1 ≠ [] := by
  revert s
  decide

theorem signCut_text_append_rest (c : Char) (cs : List Char) :
    (signCut c cs).text ++ (signCut c cs).rest = c :: cs ∧ (signCut c cs).text ≠ [] := by
  unfold signCut
  split
  · next sign kind h =>
    have hp : sign <+: c :: cs := by simpa using List.find?_some h
    obtain ⟨rest, hrest⟩ := hp
    exact ⟨by simp [← hrest], sign_ne_nil (List.mem_of_find?_eq_some h)⟩
  · simp

/-- The lexeme and the text after it **make up the text**, and the lexeme is not empty. -/
theorem first_text_append_rest (c : Char) (cs : List Char) :
    (first c cs).text ++ (first c cs).rest = c :: cs ∧ (first c cs).text ≠ [] := by
  unfold first
  split
  · simp
  split
  · simp [run, List.takeWhile_append_dropWhile]
  split
  · simp [run, List.takeWhile_append_dropWhile]
  split
  · simp only [quotedCut]
    split <;> simp [literal_text_append_rest]
  split
  · simp [run, List.takeWhile_append_dropWhile]
  · exact signCut_text_append_rest c cs

theorem length_first_rest (c : Char) (cs : List Char) :
    (first c cs).rest.length < (c :: cs).length := by
  obtain ⟨h, hne⟩ := first_text_append_rest c cs
  rw [← h, List.length_append]
  have := List.length_pos_iff.2 hne
  omega

end Lexeme

end ScopeScript
