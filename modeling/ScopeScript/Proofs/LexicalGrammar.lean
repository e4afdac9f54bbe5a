import ScopeScript.Token.Scan
import Mathlib.Computability.Language
import Mathlib.Data.List.TakeWhile

/-!
# The lexical grammar

**Which texts are lexemes, and what they denote**, said without a scanner. The lexemes are listed as
patterns, and each pattern is a language: white space and comments, the words with the keywords
among them, the numerals, the two sorts of string literals, and the signs. The closing quote of a
string literal is optional in its pattern, so a literal that is not closed is a lexeme too; but it
denotes nothing.

What a lexeme denotes is a relation (`ScopeScript.Lexeme.Denotes`). A word that is spelled as a
keyword is the keyword and no name. A numeral may have several points: it denotes the number that
its longest part with at most one point spells. In a string literal a backslash takes the next
character with it.

A text is cut up by **maximal munch** (`ScopeScript.Munched`) when every lexeme that is cut off is
the longest that any pattern has there.

## Main definitions

* `ScopeScript.Pattern` and `ScopeScript.Pattern.language`: the lexemes.
* `ScopeScript.Lexeme.Denotes`: the token that a lexeme is.
* `ScopeScript.Lexeme.Longest`: a lexeme than which no pattern has a longer one at its place.
* `ScopeScript.Munched`: a text cut up from the front, up to some place in it.
* `ScopeScript.LexError.Concerns`: an error that fits the text from its place on.
-/

namespace ScopeScript

open Computability

/-! ### Patterns -/

/-- A character that may stand **between lexemes**: the space, the tab, the newline, the carriage
return and the form feed. -/
def IsSpace (c : Char) : Prop :=
  c ∈ [' ', '\t', '\n', '\r', '\x0c']

/-- A **digit**. -/
def IsDigit (c : Char) : Prop :=
  '0' ≤ c ∧ c ≤ '9'

/-- A **letter** is one of the two times twenty-six, or the underscore. -/
def IsLetter (c : Char) : Prop :=
  'A' ≤ c ∧ c ≤ 'Z' ∨ 'a' ≤ c ∧ c ≤ 'z' ∨ c = '_'

instance : DecidablePred IsSpace := fun c => inferInstanceAs (Decidable (c ∈ _))

instance : DecidablePred IsDigit := fun _ => inferInstanceAs (Decidable (_ ∧ _))

instance : DecidablePred IsLetter := fun _ => inferInstanceAs (Decidable (_ ∨ _))

/-- The texts of **one character** with the property. -/
def oneOf (p : Char → Prop) : Language Char :=
  {w | ∃ c, p c ∧ w = [c]}

/-- The two **quotes** of string literals. -/
inductive Quote where
  /-- The double quote. -/
  | double
  /-- The single quote. -/
  | single

/-- The character that a quote is. -/
def Quote.char : Quote → Char
  | double => '"'
  | single => '\x27'

/-- The **patterns** of lexemes. -/
inductive Pattern where
  /-- A run of white space. -/
  | whiteSpace
  /-- Two slashes, and the line behind them. -/
  | comment
  /-- A reserved word. -/
  | keyword (k : Keyword)
  /-- A letter, with letters and digits behind it. -/
  | word
  /-- A digit, with digits and points behind it. -/
  | numeral
  /-- A quote and what it encloses, with or without the quote that closes it. -/
  | literal (q : Quote)
  /-- An operator. -/
  | operator (op : Operator)
  /-- A mark. -/
  | mark (m : Mark)

/-- The pieces of a string literal: characters that stand for themselves, and a backslash with
**any** character behind it. -/
def pieces (quote : Char) : Language Char :=
  oneOf (fun c => c ≠ quote ∧ c ≠ '\\') + {['\\']} * oneOf fun _ => True

/-- The texts that a pattern **matches**. -/
def Pattern.language : Pattern → Language Char
  | whiteSpace => oneOf IsSpace * (oneOf IsSpace)∗
  | comment => {['/', '/']} * (oneOf (· ≠ '\n'))∗
  | keyword k => {k.spelling.toList}
  | word => oneOf IsLetter * (oneOf fun c => IsLetter c ∨ IsDigit c)∗
  | numeral => oneOf IsDigit * (oneOf fun c => IsDigit c ∨ c = '.')∗
  | literal q => {[q.char]} * (pieces q.char)∗ * ({[q.char]} + 1)
  | operator op => {op.spelling.toList}
  | mark m => {m.spelling.toList}

/-! ### What lexemes denote -/

/-- **What stands between the quotes, and what it denotes.** -/
inductive Quoted (quote : Char) : List Char → List Char → Prop
  /-- Nothing denotes nothing. -/
  | nil : Quoted quote [] []
  /-- A character stands for itself. -/
  | plain {c spelled value} (hquote : c ≠ quote) (hslash : c ≠ '\\')
    (h : Quoted quote spelled value) : Quoted quote (c :: spelled) (c :: value)
  /-- The escape for a newline. -/
  | newline {spelled value} (h : Quoted quote spelled value) :
    Quoted quote ('\\' :: 'n' :: spelled) ('\n' :: value)
  /-- The escape for a tab. -/
  | tab {spelled value} (h : Quoted quote spelled value) :
    Quoted quote ('\\' :: 't' :: spelled) ('\t' :: value)
  /-- Any other character behind a backslash stands for itself, a quote or a backslash too. -/
  | other {c spelled value} (hn : c ≠ 'n') (ht : c ≠ 't') (h : Quoted quote spelled value) :
    Quoted quote ('\\' :: c :: spelled) (c :: value)

/-- The part of a numeral that **counts**: the longest from its beginning with at most one point. -/
structure ValuePart (numeral part : List Char) : Prop where
  /-- It stands at the beginning. -/
  front : part <+: numeral
  /-- It has at most one point. -/
  point : part.count '.' ≤ 1
  /-- No longer one has. -/
  longest : ∀ other, other <+: numeral → other.count '.' ≤ 1 → other.length ≤ part.length

/-- The decimal that digits **with at most one point** spell: the last digit counts units if there
is no point, and else as many places less as there are digits behind the point. -/
inductive Decimal.Spelled : List Char → Decimal → Prop
  /-- Digits without a point. -/
  | whole {whole} (hwhole : '.' ∉ whole) : Spelled whole ⟨Nat.ofDigitChars 10 whole 0, 0⟩
  /-- Digits around a point. -/
  | point {whole fraction} (hwhole : '.' ∉ whole) (hfraction : '.' ∉ fraction) :
    Spelled (whole ++ '.' :: fraction)
      ⟨Nat.ofDigitChars 10 (whole ++ fraction) 0, -(fraction.length : Int)⟩

namespace Lexeme

/-- **The token that a lexeme is.** -/
inductive Denotes : List Char → Token.Kind → Prop
  /-- A word that is spelled as a keyword is the keyword. -/
  | keyword (k : Keyword) : Denotes k.spelling.toList (.keyword k)
  /-- Another word is a name. -/
  | name {w} (hword : w ∈ Pattern.word.language) (hfree : ∀ k : Keyword, w ≠ k.spelling.toList) :
    Denotes w (.identifier (String.ofList w))
  /-- A numeral is the number that the part of it that counts spells, rounded to a double. -/
  | number {w part d} (hnumeral : w ∈ Pattern.numeral.language) (hpart : ValuePart w part)
    (hd : Decimal.Spelled part d) : Denotes w (.number (Binary64.ofCode false d.nearest))
  /-- A string literal that is closed is the text that it encloses. -/
  | text (q : Quote) {spelled value} (h : Quoted q.char spelled value) :
    Denotes (q.char :: spelled ++ [q.char]) (.text (String.ofList value))
  /-- An operator is the operator. -/
  | operator (op : Operator) : Denotes op.spelling.toList (.operator op)
  /-- A mark is the mark. -/
  | mark (m : Mark) : Denotes m.spelling.toList (.mark m)

/-- A lexeme in front of the rest of a text, **than which there is no longer one** there. -/
structure Longest (text rest : List Char) : Prop where
  /-- It is a lexeme. -/
  matched : ∃ p : Pattern, text ∈ p.language
  /-- What any pattern matches there is not longer. -/
  longest : ∀ (p : Pattern) (w : List Char), w ∈ p.language → w <+: text ++ rest →
    w.length ≤ text.length

/-- A lexeme that is **no token**: white space, or a comment. -/
def Skipped (text : List Char) : Prop :=
  text ∈ Pattern.whiteSpace.language ∨ text ∈ Pattern.comment.language

/-- The text begins with **a lexeme that scanning can go on behind**: the longest that stands there
is skipped or is a token. -/
def Fits (cs : List Char) : Prop :=
  ∃ text rest, cs = text ++ rest ∧ Longest text rest ∧ (Skipped text ∨ ∃ kind, Denotes text kind)

end Lexeme

/-! ### Maximal munch -/

/-- **The tokens between two places of a text.** The text stands from byte `pos` on, and `last` is
what of it is not cut up. -/
inductive Munched : Nat → List Char → List Token → List Char → Prop
  /-- Nothing is cut off. -/
  | done {pos last} : Munched pos last [] last
  /-- White space or a comment is passed over. -/
  | skip {pos text rest tokens last} (hlongest : Lexeme.Longest text rest)
    (hskipped : Lexeme.Skipped text) (h : Munched (pos + byteLength text) rest tokens last) :
    Munched pos (text ++ rest) tokens last
  /-- A token is taken. -/
  | take {pos text kind rest tokens last} (hlongest : Lexeme.Longest text rest)
    (hdenotes : Lexeme.Denotes text kind) (h : Munched (pos + byteLength text) rest tokens last) :
    Munched pos (text ++ rest) (⟨kind, ⟨pos, pos + byteLength text⟩⟩ :: tokens) last

/-- **What an error says about the text where scanning cannot go on.** The text stands from byte
`pos` on. -/
inductive LexError.Concerns : LexError → Nat → List Char → Prop
  /-- No pattern matches anything there, and the error names the character that stands there. -/
  | stray {c cs pos}
    (hnone : ∀ (p : Pattern) (w : List Char), w ∈ p.language → ¬ w <+: c :: cs) :
    Concerns ⟨.strayCharacter c, ⟨pos, pos + c.utf8Size⟩⟩ pos (c :: cs)
  /-- A quote stands there that **nothing closes**. The longest lexeme there takes all the text, but
  for a backslash that is its last character. -/
  | unclosed {q : Quote} {cs text rest pos} (htext : q.char :: cs = text ++ rest)
    (hlongest : Lexeme.Longest text rest) (hrest : rest = [] ∨ rest = ['\\'])
    (hopen : ∀ w value, w <+: q.char :: cs → ¬ Lexeme.Denotes w (.text value)) :
    Concerns ⟨.unclosedString, ⟨pos, pos + byteLength text⟩⟩ pos (q.char :: cs)

/-! ### The patterns character by character -/

section Language

variable {p q : Char → Prop} {w : List Char}

theorem mem_oneOf : w ∈ oneOf p ↔ ∃ c, p c ∧ w = [c] :=
  Iff.rfl

theorem mem_single {v : List Char} : w ∈ ({v} : Language Char) ↔ w = v :=
  Set.mem_singleton_iff

/-- A run of characters: **each** has the property. -/
theorem mem_kstar_oneOf : w ∈ (oneOf p)∗ ↔ ∀ c ∈ w, p c := by
  rw [Language.mem_kstar]
  constructor
  · rintro ⟨parts, rfl, hparts⟩ c hc
    obtain ⟨part, hpart, hc⟩ := List.mem_flatten.mp hc
    obtain ⟨d, hd, rfl⟩ := mem_oneOf.mp (hparts part hpart)
    rwa [List.mem_singleton.mp hc]
  · intro hw
    refine ⟨w.map ([·]), by simp [← List.flatMap_def], fun part hpart => ?_⟩
    obtain ⟨c, hc, rfl⟩ := List.mem_map.mp hpart
    exact ⟨c, hw c hc, rfl⟩

/-- A first character of one class, and then a run of another. -/
theorem mem_oneOf_mul_kstar :
    w ∈ oneOf p * (oneOf q)∗ ↔ ∃ c cs, w = c :: cs ∧ p c ∧ ∀ d ∈ cs, q d := by
  rw [Language.mem_mul]
  constructor
  · rintro ⟨front, hfront, cs, hcs, rfl⟩
    obtain ⟨c, hc, rfl⟩ := mem_oneOf.mp hfront
    exact ⟨c, cs, rfl, hc, mem_kstar_oneOf.mp hcs⟩
  · rintro ⟨c, cs, rfl, hc, hcs⟩
    exact ⟨[c], ⟨c, hc, rfl⟩, cs, mem_kstar_oneOf.mpr hcs, rfl⟩

/-- Any character may stand **behind a backslash**. -/
theorem Quoted.escaped {quote : Char} {spelled value : List Char} (h : Quoted quote spelled value)
    (c : Char) : Quoted quote ('\\' :: c :: spelled) (Lexeme.unescape c :: value) := by
  by_cases hn : c = 'n'
  · subst hn
    exact h.newline
  by_cases ht : c = 't'
  · subst ht
    exact h.tab
  rw [Lexeme.unescape, if_neg hn, if_neg ht]
  exact h.other hn ht

/-- What the pieces of a literal make up is **what can be quoted**. -/
theorem mem_kstar_pieces {quote : Char} :
    w ∈ (pieces quote)∗ ↔ ∃ value, Quoted quote w value := by
  rw [Language.mem_kstar]
  constructor
  · rintro ⟨parts, rfl, hparts⟩
    induction parts with
    | nil => exact ⟨[], .nil⟩
    | cons part parts ih =>
      obtain ⟨hpart, hparts⟩ := List.forall_mem_cons.mp hparts
      obtain ⟨value, hvalue⟩ := ih hparts
      rcases hpart with ⟨c, ⟨hquote, hslash⟩, rfl⟩ | ⟨_, rfl, _, ⟨c, -, rfl⟩, rfl⟩
      · exact ⟨c :: value, .plain hquote hslash hvalue⟩
      · exact ⟨_, hvalue.escaped c⟩
  · rintro ⟨value, hvalue⟩
    have hescape (c : Char) : ['\\', c] ∈ pieces quote := .inr ⟨_, rfl, _, ⟨c, trivial, rfl⟩, rfl⟩
    have hcons {part spelled : List Char} (hpart : part ∈ pieces quote)
        (hspelled : ∃ parts : List (List Char), spelled = parts.flatten ∧
          ∀ y ∈ parts, y ∈ pieces quote) :
        ∃ parts : List (List Char), part ++ spelled = parts.flatten ∧
          ∀ y ∈ parts, y ∈ pieces quote := by
      obtain ⟨parts, rfl, hparts⟩ := hspelled
      exact ⟨part :: parts, rfl, List.forall_mem_cons.mpr ⟨hpart, hparts⟩⟩
    induction hvalue with
    | nil => exact ⟨[], rfl, nofun⟩
    | @plain c _ _ hquote hslash _ ih => exact hcons (.inl ⟨c, ⟨hquote, hslash⟩, rfl⟩) ih
    | newline _ ih => exact hcons (hescape 'n') ih
    | tab _ ih => exact hcons (hescape 't') ih
    | @other c _ _ _ _ _ ih => exact hcons (hescape c) ih

theorem mem_whiteSpace :
    w ∈ Pattern.whiteSpace.language ↔ ∃ c cs, w = c :: cs ∧ IsSpace c ∧ ∀ d ∈ cs, IsSpace d :=
  mem_oneOf_mul_kstar

theorem mem_word : w ∈ Pattern.word.language ↔
    ∃ c cs, w = c :: cs ∧ IsLetter c ∧ ∀ d ∈ cs, IsLetter d ∨ IsDigit d :=
  mem_oneOf_mul_kstar

theorem mem_numeral : w ∈ Pattern.numeral.language ↔
    ∃ c cs, w = c :: cs ∧ IsDigit c ∧ ∀ d ∈ cs, IsDigit d ∨ d = '.' :=
  mem_oneOf_mul_kstar

theorem mem_comment :
    w ∈ Pattern.comment.language ↔ ∃ cs, w = '/' :: '/' :: cs ∧ ∀ d ∈ cs, d ≠ '\n' := by
  rw [Pattern.language, Language.mem_mul]
  constructor
  · rintro ⟨_, rfl, cs, hcs, rfl⟩
    exact ⟨cs, rfl, mem_kstar_oneOf.mp hcs⟩
  · rintro ⟨cs, rfl, hcs⟩
    exact ⟨_, rfl, cs, mem_kstar_oneOf.mpr hcs, rfl⟩

theorem mem_literal {quote : Quote} : w ∈ (Pattern.literal quote).language ↔
    ∃ spelled value close, Quoted quote.char spelled value ∧ (close = [quote.char] ∨ close = []) ∧
      w = quote.char :: spelled ++ close := by
  rw [Pattern.language, Language.mem_mul]
  constructor
  · rintro ⟨_, ⟨_, rfl, spelled, hspelled, rfl⟩, close, hclose, rfl⟩
    obtain ⟨value, hvalue⟩ := mem_kstar_pieces.mp hspelled
    exact ⟨spelled, value, close, hvalue, hclose, rfl⟩
  · rintro ⟨spelled, value, close, hvalue, hclose, rfl⟩
    exact ⟨_, ⟨_, rfl, spelled, mem_kstar_pieces.mpr ⟨value, hvalue⟩, rfl⟩, close, hclose, rfl⟩

end Language

/-! ### Numerals -/

section Numerals

variable {whole fraction tail w : List Char}

/-- A text without a point is **what comes before the first point**. -/
theorem takeWhile_point (hwhole : '.' ∉ whole) (htail : ∀ d ∈ tail.head?, d = '.') :
    (whole ++ tail).takeWhile (· ≠ '.') = whole ∧ (whole ++ tail).dropWhile (· ≠ '.') = tail := by
  have hall : ∀ d ∈ whole, decide (d ≠ '.') := fun d hd =>
    decide_eq_true fun hpoint => hwhole (hpoint ▸ hd)
  rw [List.takeWhile_append_of_pos hall, List.dropWhile_append_of_pos hall]
  cases tail with
  | nil => exact ⟨List.append_nil whole, rfl⟩
  | cons d tail => simp [htail d rfl]

/-- A text cut in two **in front of its first point**. -/
theorem exists_point_split (w : List Char) :
    ∃ whole tail, w = whole ++ tail ∧ '.' ∉ whole ∧ ∀ d ∈ tail.head?, d = '.' := by
  induction w with
  | nil => exact ⟨[], [], rfl, nofun, nofun⟩
  | cons c w ih =>
    by_cases hc : c = '.'
    · exact ⟨[], c :: w, rfl, nofun, fun d hd => Option.some.inj hd ▸ hc⟩
    · obtain ⟨whole, tail, rfl, hwhole, htail⟩ := ih
      exact ⟨c :: whole, tail, rfl, by simp [Ne.symm hc, hwhole], htail⟩

/-- The **decimal of a numeral** is the one that its longest part with at most one point spells. -/
theorem exists_valuePart (w : List Char) :
    ∃ part, ValuePart w part ∧ Decimal.Spelled part (Decimal.ofNumeral w) := by
  obtain ⟨whole, tail, rfl, hwhole, htail⟩ := exists_point_split w
  obtain ⟨htake, hdrop⟩ := takeWhile_point hwhole htail
  cases tail with
  | nil =>
    have hcount : whole.count '.' = 0 := List.count_eq_zero.mpr hwhole
    refine ⟨whole, ⟨by simp, by omega, fun other hother _ => by simpa using hother.length_le⟩, ?_⟩
    rw [Decimal.ofNumeral, htake, hdrop]
    simpa using Decimal.Spelled.whole hwhole
  | cons d tail =>
    obtain rfl := htail d rfl
    obtain ⟨fraction, more, rfl, hfraction, hmore⟩ := exists_point_split tail
    refine ⟨whole ++ '.' :: fraction, ⟨⟨more, by simp⟩, ?_, fun other hother hcount => ?_⟩, ?_⟩
    · simp [List.count_eq_zero.mpr hwhole, List.count_eq_zero.mpr hfraction]
    · by_contra hlonger
      -- a longer part has a second point
      cases more with
      | nil => exact hlonger (by simpa using hother.length_le)
      | cons d more =>
        obtain rfl := hmore d rfl
        have hpoints : whole ++ '.' :: fraction ++ ['.'] <+: other := by
          refine List.prefix_of_prefix_length_le ⟨more, by simp⟩ hother ?_
          simp only [List.length_append, List.length_cons, List.length_nil] at hlonger ⊢
          omega
        have := hpoints.sublist.count_le '.'
        simp at this
        omega
    · rw [Decimal.ofNumeral, htake, hdrop, List.drop_one, List.tail_cons,
        (takeWhile_point hfraction hmore).1]
      exact .point hwhole hfraction

/-- A numeral has **one** part that counts. -/
theorem ValuePart.unique {part part' : List Char} (h : ValuePart w part) (h' : ValuePart w part') :
    part = part' := by
  have hle := h'.longest part h.front h.point
  exact (List.prefix_of_prefix_length_le h.front h'.front hle).eq_of_length_le
    (h.longest part' h'.front h'.point)

/-- Digits spell **one** decimal. -/
theorem Decimal.Spelled.unique {part : List Char} {d d' : Decimal} (h : Decimal.Spelled part d)
    (h' : Decimal.Spelled part d') : d = d' := by
  have hpoint (fraction : List Char) : ∀ d ∈ ('.' :: fraction).head?, d = '.' := by simp
  rcases h with hwhole | ⟨hwhole, hfraction⟩
  · generalize hpart : part = other at h'
    rcases h' with hwhole' | ⟨hwhole', hfraction'⟩
    · rfl
    · simp [hpart] at hwhole
  · rename_i whole fraction
    generalize hpart : whole ++ '.' :: fraction = other at h'
    rcases h' with hwhole' | ⟨hwhole', hfraction'⟩
    · simp [← hpart] at hwhole'
    · rename_i whole' fraction'
      obtain ⟨htake, hdrop⟩ := takeWhile_point hwhole (hpoint fraction)
      rw [hpart] at htake hdrop
      obtain ⟨htake', hdrop'⟩ := takeWhile_point hwhole' (hpoint fraction')
      obtain rfl := htake.symm.trans htake'
      obtain ⟨-, rfl⟩ := List.cons.inj (hdrop.symm.trans hdrop')
      rfl

end Numerals

end ScopeScript
