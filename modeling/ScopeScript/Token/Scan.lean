import ScopeScript.Token.Lexeme

/-!
# Texts as lists of tokens

`ScopeScript.tokenize` cuts a text into lexemes from the front and keeps those that are tokens, each
with its span; the list closes with one token for the end of the input. It fails at the first lexeme
in error, and the error tells which and where.

## Main definitions

* `ScopeScript.LexError`: why a text is no list of tokens.
* `ScopeScript.tokenize`: the tokens of a text.
-/

namespace ScopeScript

/-- The two ways in which a text **fails to be a list of tokens**. There is no third for a lexeme
that is in error and has no character to be named, as every lexeme has a character
(`ScopeScript.Lexeme.first_text_append_rest`), nor one for numerals, as every numeral is a number
(`ScopeScript.Lexeme.numeralKind`). -/
inductive LexError.Cause where
  /-- A string literal is not closed. -/
  | unclosedString
  /-- No token begins with the character. -/
  | strayCharacter (c : Char)
deriving DecidableEq

/-- Why and where a text is **no list of tokens**. -/
structure LexError where
  /-- What is wrong. -/
  cause : LexError.Cause
  /-- The text of the lexeme that is wrong. -/
  span : Span
deriving DecidableEq

/-- The wording of the error. -/
def LexError.message (e : LexError) : String :=
  match e.cause with
  | .unclosedString => "Unterminated string literal"
  | .strayCharacter c => "Unexpected character: '" ++ String.singleton c ++ "'"

/-- The tokens of a text **that stands from byte `pos` on**. The span of a token or of an error is
never empty, since the text of a lexeme is not; only the mark of the end has an empty span. -/
def tokensFrom (pos : Nat) : List Char → Except LexError (List Token)
  | [] => .ok [⟨.endOfInput, ⟨pos, pos⟩⟩]
  | c :: cs =>
    let cut := Lexeme.first c cs
    let stop := pos + byteLength cut.text
    match cut.lexeme with
    | .blank => tokensFrom stop cut.rest
    | .token kind =>
      match tokensFrom stop cut.rest with
      | .ok tokens => .ok (⟨kind, ⟨pos, stop⟩⟩ :: tokens)
      | .error e => .error e
    | .unclosed => .error ⟨.unclosedString, ⟨pos, stop⟩⟩
    | .stray c => .error ⟨.strayCharacter c, ⟨pos, stop⟩⟩
termination_by cs => cs.length
decreasing_by all_goals exact Lexeme.length_first_rest c cs

/-- The **tokens of a text**, the end of the input included. -/
def tokenize (source : String) : Except LexError (List Token) :=
  tokensFrom 0 source.toList

end ScopeScript
