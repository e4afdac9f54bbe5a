import ScopeScript.Proofs.LexicalGrammar
import ScopeScript.Proofs.Scanning

/-!
# The first lexeme is the longest

**What the scanner cuts off a text is the longest lexeme there, and it is taken for what the lexeme
denotes** (`ScopeScript.Lexeme.first_spec`). Where no pattern matches, or only that of a string
literal that nothing closes, the scanner has an error that says so.

The first character of a lexeme tells its family (`ScopeScript.Pattern.family_of_mem`). So at each
place only the patterns of one family have to be compared with what is cut off there. White space is
the exception: the scanner takes it one character at a time, where the pattern has a whole run of
it.

Conversely every lexeme that denotes a token is scanned as that token when it stands alone
(`ScopeScript.Lexeme.Denotes.first_eq`), so it denotes no other.
-/

namespace ScopeScript

/-! ### The first character of a lexeme -/

namespace Lexeme

variable {c : Char}

theorem isBlank_iff : isBlank c ↔ IsSpace c := by
  simp [isBlank, IsSpace, or_assoc]

theorem isDigit_iff : c.isDigit ↔ IsDigit c := by
  simp [Char.isDigit, IsDigit, Char.le_def]

theorem beginsWord_iff : beginsWord c ↔ IsLetter c := by
  have halpha : c.isAlpha = (decide (c.val ≥ 'A'.val ∧ c.val ≤ 'Z'.val) ||
      (decide (c.val ≥ 'a'.val) && decide (c.val ≤ 'z'.val))) := rfl
  simp [beginsWord, IsLetter, halpha, Char.le_def]
  grind

theorem continuesWord_iff : continuesWord c ↔ IsLetter c ∨ IsDigit c := by
  rw [← beginsWord_iff, ← isDigit_iff]
  simp [continuesWord, beginsWord, Char.isAlphanum, or_right_comm]

theorem continuesNumeral_iff : continuesNumeral c ↔ IsDigit c ∨ c = '.' := by
  rw [← isDigit_iff]
  simp [continuesNumeral]

theorem isQuote_iff : isQuote c ↔ ∃ q : Quote, c = q.char := by
  constructor
  · intro h
    rcases (by simpa [isQuote] using h : c = '"' ∨ c = '\x27') with rfl | rfl
    · exact ⟨.double, rfl⟩
    · exact ⟨.single, rfl⟩
  · rintro ⟨_ | _, rfl⟩ <;> decide

/-- The **families of lexemes** that a first character can tell apart. -/
inductive Family where
  /-- White space. -/
  | space
  /-- Words. -/
  | word
  /-- Numerals. -/
  | numeral
  /-- String literals. -/
  | literal
  /-- Signs, and comments. -/
  | sign
deriving DecidableEq

/-- The family of the lexemes that **begin with the character**, if any does. -/
def family (c : Char) : Family :=
  if isBlank c then .space
  else if beginsWord c then .word
  else if c.isDigit then .numeral
  else if isQuote c then .literal
  else .sign

theorem family_of_isSpace (h : IsSpace c) : family c = .space :=
  if_pos (isBlank_iff.mpr h)

theorem family_of_isLetter (h : IsLetter c) : family c = .word := by
  have hblank : ¬ isBlank c := fun hc => by
    have hc : c = ' ' ∨ c = '\t' ∨ c = '\n' ∨ c = '\r' ∨ c = '\x0c' := by
      simpa [IsSpace] using isBlank_iff.mp hc
    rcases hc with rfl | rfl | rfl | rfl | rfl <;> exact absurd h (by decide)
  rw [family, if_neg hblank, if_pos (beginsWord_iff.mpr h)]

theorem family_of_isDigit (h : IsDigit c) : family c = .numeral := by
  have hblank : ¬ isBlank c := fun hc => by
    have hc : c = ' ' ∨ c = '\t' ∨ c = '\n' ∨ c = '\r' ∨ c = '\x0c' := by
      simpa [IsSpace] using isBlank_iff.mp hc
    rcases hc with rfl | rfl | rfl | rfl | rfl <;> exact absurd h (by decide)
  have hletter : ¬ beginsWord c := fun hc => by
    rcases beginsWord_iff.mp hc with hc | hc | rfl
    · exact absurd (Char.le_trans hc.1 h.2) (by decide)
    · exact absurd (Char.le_trans hc.1 h.2) (by decide)
    · exact absurd h (by decide)
  rw [family, if_neg hblank, if_neg hletter, if_pos (isDigit_iff.mpr h)]

theorem family_operator (op : Operator) (h : op.spelling.toList.head? = some c) :
    family c = .sign := by
  revert c
  cases op <;> rintro _ ⟨⟩ <;> decide

theorem family_mark (m : Mark) (h : m.spelling.toList.head? = some c) : family c = .sign := by
  revert c
  cases m <;> rintro _ ⟨⟩ <;> decide

end Lexeme

namespace Pattern

/-- The family of a pattern. -/
def family : Pattern → Lexeme.Family
  | whiteSpace => .space
  | keyword _ | word => .word
  | numeral => .numeral
  | literal _ => .literal
  | comment | operator _ | mark _ => .sign

/-- Keywords are words. -/
theorem keyword_mem_word (k : Keyword) : k.spelling.toList ∈ word.language := by
  have hletters : k.spelling.toList ≠ [] ∧ k.spelling.toList.all fun c => IsLetter c := by
    cases k <;> decide
  obtain ⟨c, cs, hcs⟩ := List.exists_cons_of_ne_nil hletters.1
  simp only [hcs, List.all_eq_true, decide_eq_true_eq] at hletters ⊢
  obtain ⟨hc, hrest⟩ := List.forall_mem_cons.mp hletters.2
  exact mem_word.mpr ⟨c, cs, rfl, hc, fun d hd => .inl (hrest d hd)⟩

/-- No pattern matches the empty text. -/
theorem ne_nil_of_mem {p : Pattern} {w : List Char} (h : w ∈ p.language) : w ≠ [] := by
  rintro rfl
  cases p with
  | whiteSpace => obtain ⟨_, _, ⟨⟩, _⟩ := mem_whiteSpace.mp h
  | comment => obtain ⟨_, ⟨⟩, _⟩ := mem_comment.mp h
  | keyword k => cases k <;> cases h
  | word => obtain ⟨_, _, ⟨⟩, _⟩ := mem_word.mp h
  | numeral => obtain ⟨_, _, ⟨⟩, _⟩ := mem_numeral.mp h
  | literal => obtain ⟨_, _, _, _, _, ⟨⟩⟩ := mem_literal.mp h
  | operator op => cases op <;> cases h
  | mark m => cases m <;> cases h

/-- **The first character of a lexeme tells the family** of its pattern. -/
theorem family_of_mem {p : Pattern} {c : Char} {cs : List Char} (h : c :: cs ∈ p.language) :
    Lexeme.family c = p.family := by
  cases p with
  | whiteSpace =>
    obtain ⟨_, _, ⟨⟩, hc, -⟩ := mem_whiteSpace.mp h
    exact Lexeme.family_of_isSpace hc
  | comment =>
    obtain ⟨_, ⟨⟩, -⟩ := mem_comment.mp h
    decide
  | keyword k =>
    obtain ⟨_, _, ⟨⟩, hc, -⟩ := mem_word.mp (mem_single.mp h ▸ keyword_mem_word k)
    exact Lexeme.family_of_isLetter hc
  | word =>
    obtain ⟨_, _, ⟨⟩, hc, -⟩ := mem_word.mp h
    exact Lexeme.family_of_isLetter hc
  | numeral =>
    obtain ⟨_, _, ⟨⟩, hc, -⟩ := mem_numeral.mp h
    exact Lexeme.family_of_isDigit hc
  | literal q =>
    obtain ⟨_, _, _, _, _, ⟨⟩⟩ := mem_literal.mp h
    cases q <;> decide
  | operator op => exact Lexeme.family_operator op (by rw [← mem_single.mp h]; rfl)
  | mark m => exact Lexeme.family_mark m (by rw [← mem_single.mp h]; rfl)

end Pattern

/-! ### The longest lexeme at a place -/

namespace Lexeme

variable {c : Char} {cs text rest w : List Char} {kind : Token.Kind}

/-- Only the patterns **of one family** have to be compared. -/
theorem Longest.of_family {p : Pattern} (htext : text ++ rest = c :: cs)
    (hmatched : text ∈ p.language)
    (hlongest : ∀ (p : Pattern) (w : List Char), p.family = family c → c :: w ∈ p.language →
      w <+: cs → w.length < text.length) : Longest text rest where
  matched := ⟨p, hmatched⟩
  longest p w hw hfront := by
    obtain ⟨d, ds, rfl⟩ := List.exists_cons_of_ne_nil (Pattern.ne_nil_of_mem hw)
    rw [htext] at hfront
    obtain ⟨rfl, hds⟩ := List.cons_prefix_cons.mp hfront
    exact hlongest p ds (Pattern.family_of_mem hw).symm hw hds

/-- The characters of a class **as far as they go** are the longest lexeme, if all that lexemes of
the family go on with is of the class. -/
theorem Longest.of_run {p : Pattern} {q : Char → Bool} (hmatched : c :: cs.takeWhile q ∈ p.language)
    (hrun : ∀ (p : Pattern) (w : List Char), p.family = family c → c :: w ∈ p.language →
      ∀ d ∈ w, q d) : Longest (c :: cs.takeWhile q) (cs.dropWhile q) := by
  refine .of_family (by rw [List.cons_append, List.takeWhile_append_dropWhile]) hmatched
    fun p w hp hw hfront => Nat.lt_succ_of_le ?_
  obtain ⟨more, rfl⟩ := hfront
  rw [List.takeWhile_append_of_pos (hrun p w hp hw), List.length_append]
  exact Nat.le_add_right ..

theorem longest_space (cs : List Char) (h : IsSpace c) :
    c :: cs.takeWhile isBlank ∈ Pattern.whiteSpace.language ∧
      Longest (c :: cs.takeWhile isBlank) (cs.dropWhile isBlank) := by
  have hmatched : c :: cs.takeWhile isBlank ∈ Pattern.whiteSpace.language :=
    mem_whiteSpace.mpr ⟨c, _, rfl, h, fun d hd => isBlank_iff.mp (List.mem_takeWhile_imp hd)⟩
  refine ⟨hmatched, .of_run hmatched fun p w hp hw d hd => ?_⟩
  rw [family_of_isSpace h] at hp
  cases p with
  | whiteSpace =>
    obtain ⟨_, _, ⟨⟩, -, hspace⟩ := mem_whiteSpace.mp hw
    exact isBlank_iff.mpr (hspace d hd)
  | _ => cases hp

theorem longest_word (cs : List Char) (h : IsLetter c) :
    c :: cs.takeWhile continuesWord ∈ Pattern.word.language ∧
      Longest (c :: cs.takeWhile continuesWord) (cs.dropWhile continuesWord) := by
  have hmatched : c :: cs.takeWhile continuesWord ∈ Pattern.word.language :=
    mem_word.mpr ⟨c, _, rfl, h, fun d hd => continuesWord_iff.mp (List.mem_takeWhile_imp hd)⟩
  refine ⟨hmatched, .of_run hmatched fun p w hp hw d hd => ?_⟩
  have hword : c :: w ∈ Pattern.word.language := by
    rw [family_of_isLetter h] at hp
    cases p with
    | keyword k => exact mem_single.mp hw ▸ Pattern.keyword_mem_word k
    | word => exact hw
    | _ => cases hp
  obtain ⟨_, _, ⟨⟩, -, hletters⟩ := mem_word.mp hword
  exact continuesWord_iff.mpr (hletters d hd)

theorem longest_numeral (cs : List Char) (h : IsDigit c) :
    c :: cs.takeWhile continuesNumeral ∈ Pattern.numeral.language ∧
      Longest (c :: cs.takeWhile continuesNumeral) (cs.dropWhile continuesNumeral) := by
  have hmatched : c :: cs.takeWhile continuesNumeral ∈ Pattern.numeral.language :=
    mem_numeral.mpr ⟨c, _, rfl, h, fun d hd => continuesNumeral_iff.mp (List.mem_takeWhile_imp hd)⟩
  refine ⟨hmatched, .of_run hmatched fun p w hp hw d hd => ?_⟩
  rw [family_of_isDigit h] at hp
  cases p with
  | numeral =>
    obtain ⟨_, _, ⟨⟩, -, hdigits⟩ := mem_numeral.mp hw
    exact continuesNumeral_iff.mpr (hdigits d hd)
  | _ => cases hp

/-! ### Signs -/

theorem operator_mem_signs (op : Operator) : (op.spelling.toList, .operator op) ∈ signs := by
  cases op <;> decide

theorem mark_mem_signs (m : Mark) : (m.spelling.toList, .mark m) ∈ signs := by
  cases m <;> decide

/-- Each sign is **the operator or the mark** of its spelling. -/
theorem denotes_of_sign {s : List Char × Token.Kind} (h : s ∈ signs) : Denotes s.1 s.2 := by
  have hall : ∀ s ∈ signs, Denotes s.1 s.2 := by
    simp only [signs, List.forall_mem_cons]
    exact ⟨.operator .doubleEqual, .operator .unequal, .operator .greaterEqual,
      .operator .lessEqual, .operator .doubleAmp, .operator .doubleBar, .operator .plus,
      .operator .minus, .operator .times, .operator .dividedBy, .operator .percent,
      .operator .greater, .operator .less, .operator .bang, .mark .assign, .mark .leftParen,
      .mark .rightParen, .mark .leftBrace, .mark .rightBrace, .mark .comma, .mark .semicolon,
      by simp⟩
  exact hall s h

/-- What denotes a token **is a lexeme**. -/
theorem Denotes.matched (h : Denotes w kind) : ∃ p : Pattern, w ∈ p.language := by
  cases h with
  | keyword k => exact ⟨.keyword k, mem_single.mpr rfl⟩
  | name hword => exact ⟨.word, hword⟩
  | number hnumeral => exact ⟨.numeral, hnumeral⟩
  | text q h => exact ⟨.literal q, mem_literal.mpr ⟨_, _, _, h, .inl rfl, rfl⟩⟩
  | operator op => exact ⟨.operator op, mem_single.mpr rfl⟩
  | mark m => exact ⟨.mark m, mem_single.mpr rfl⟩

/-- What a pattern matches where no comment stands **is one of the signs**. -/
theorem mem_signs_of_mem {p : Pattern} (hfamily : family c = .sign) (hw : c :: w ∈ p.language)
    (hcomment : p ≠ .comment) : ∃ kind, (c :: w, kind) ∈ signs := by
  have hp := Pattern.family_of_mem hw
  rw [hfamily] at hp
  cases p with
  | comment => exact absurd rfl hcomment
  | operator op => exact ⟨_, mem_single.mp hw ▸ operator_mem_signs op⟩
  | mark m => exact ⟨_, mem_single.mp hw ▸ mark_mem_signs m⟩
  | _ => cases hp

/-- The sign that is found first is **the longest** that stands there. -/
theorem length_le_of_find? {s t : List Char × Token.Kind} (ht : t ∈ signs) (htcs : t.1 <+: cs)
    (hs : signs.find? (fun s => s.1.isPrefixOf cs) = some s) : t.1.length ≤ s.1.length := by
  obtain ⟨-, before, after, hsigns, hbefore⟩ := List.find?_eq_some_iff_append.mp hs
  have hordered : signs.Pairwise fun s t => t.1.length ≤ s.1.length := by decide
  rw [hsigns] at ht hordered
  rcases List.mem_append.mp ht with ht | ht
  · exact absurd (hbefore t ht) (by simpa using htcs)
  · rcases List.mem_cons.mp ht with rfl | ht
    · exact Nat.le_refl _
    · exact List.rel_of_pairwise_cons (List.pairwise_append.mp hordered).2.1 ht

/-- Where no comment begins, **a comment is not matched**. -/
theorem not_comment_of_head? (hcomment : ¬ (c = '/' ∧ cs.head? = some '/')) (hfront : w <+: cs) :
    c :: w ∉ Pattern.comment.language := by
  intro hw
  obtain ⟨_, ⟨⟩, -⟩ := mem_comment.mp hw
  obtain ⟨more, rfl⟩ := hfront
  exact hcomment ⟨rfl, rfl⟩

theorem longest_sign {s : List Char × Token.Kind} (hfamily : family c = .sign)
    (hcomment : ¬ (c = '/' ∧ cs.head? = some '/')) (htext : s.1 ++ rest = c :: cs)
    (hs : signs.find? (fun s => s.1.isPrefixOf (c :: cs)) = some s) : Longest s.1 rest := by
  have hmem := List.mem_of_find?_eq_some hs
  obtain ⟨p, hp⟩ := (denotes_of_sign hmem).matched
  refine .of_family htext hp fun p w _ hw hfront => Nat.lt_of_succ_le ?_
  obtain ⟨kind, hsign⟩ := mem_signs_of_mem hfamily hw
    (fun hp => not_comment_of_head? hcomment hfront (hp ▸ hw))
  exact length_le_of_find? hsign (List.cons_prefix_cons.mpr ⟨rfl, hfront⟩) hs

/-- A character with which no sign begins, nor anything else, begins **no lexeme**. -/
theorem not_prefix_of_stray (hfamily : family c = .sign)
    (hcomment : ¬ (c = '/' ∧ cs.head? = some '/'))
    (hnone : signs.find? (fun s => s.1.isPrefixOf (c :: cs)) = none) (p : Pattern) (w : List Char)
    (hw : w ∈ p.language) : ¬ w <+: c :: cs := by
  intro hfront
  obtain ⟨d, ds, rfl⟩ := List.exists_cons_of_ne_nil (Pattern.ne_nil_of_mem hw)
  obtain ⟨rfl, hds⟩ := List.cons_prefix_cons.mp hfront
  obtain ⟨kind, hsign⟩ := mem_signs_of_mem hfamily hw
    (fun hp => not_comment_of_head? hcomment hds (hp ▸ hw))
  exact List.find?_eq_none.mp hnone _ hsign (by simpa using hfront)

/-- What begins with a slash is **a comment or the slash alone**. -/
theorem longest_comment (h : cs.head? = some '/') :
    '/' :: cs.takeWhile (· ≠ '\n') ∈ Pattern.comment.language ∧
      Longest ('/' :: cs.takeWhile (· ≠ '\n')) (cs.dropWhile (· ≠ '\n')) := by
  have hmatched : '/' :: cs.takeWhile (· ≠ '\n') ∈ Pattern.comment.language := by
    obtain ⟨ds, rfl⟩ := List.head?_eq_some_iff.mp h
    refine mem_comment.mpr ⟨ds.takeWhile (· ≠ '\n'), by simp, fun d hd => ?_⟩
    simpa using List.mem_takeWhile_imp hd
  refine ⟨hmatched, .of_run hmatched fun p w hp hw d hd => decide_eq_true ?_⟩
  have hslash : family '/' = .sign := by decide
  rw [hslash] at hp
  cases p with
  | comment =>
    obtain ⟨_, ⟨⟩, hline⟩ := mem_comment.mp hw
    rcases List.mem_cons.mp hd with rfl | hd
    · decide
    · exact hline d hd
  | operator op => cases op <;> first | cases hw; cases hd | cases hw
  | mark m => cases m <;> cases hw
  | _ => cases hp

/-! ### String literals -/

section Literals

variable {quote : Char} {spelled value : List Char}

/-- A character that does not take the next one with it, nor ends the text as one that would, is
**no backslash**. -/
theorem ne_backslash (hnil : c = '\\' → cs = [] → False)
    (hcons : ∀ d ds, c = '\\' → cs = d :: ds → False) : c ≠ '\\' := by
  intro hc
  cases hcs : cs with
  | nil => exact hnil hc hcs
  | cons d ds => exact hcons d ds hc hcs

theorem push_eq_none_iff {l : Literal} {denoted : Char} :
    l.push spelled denoted = ⟨none, text, rest⟩ ↔
      ∃ text', l = ⟨none, text', rest⟩ ∧ spelled ++ text' = text := by
  obtain ⟨_ | value', text', rest'⟩ := l
  · simp only [Literal.push, Option.map_none, Literal.mk.injEq, true_and]
    grind
  · simp [Literal.push]

/-- A literal that is closed is read **up to the quote that closes it**. -/
theorem literal_of_quoted (hquote : quote ≠ '\\') (h : Quoted quote spelled value)
    (rest : List Char) :
    literal quote (spelled ++ quote :: rest) = ⟨some value, spelled ++ [quote], rest⟩ := by
  induction h with
  | nil => rw [List.nil_append, literal_cons hquote, if_pos rfl, List.nil_append]
  | plain hne hslash _ ih => rw [List.cons_append, literal_cons hslash, if_neg hne, ih]; rfl
  | newline _ ih | tab _ ih => rw [List.cons_append, List.cons_append, literal, ih]; rfl
  | other hn ht _ ih =>
    rw [List.cons_append, List.cons_append, literal, ih, unescape, if_neg hn, if_neg ht]
    rfl

/-- **As much of a text as can be quoted** is read as part of the literal. -/
theorem length_le_literal (h : Quoted quote spelled value) :
    spelled.length ≤ (literal quote (spelled ++ rest)).text.length := by
  induction h with
  | nil => exact Nat.zero_le _
  | plain hne hslash _ ih =>
    rw [List.cons_append, literal_cons hslash, if_neg hne]
    exact Nat.succ_le_succ ih
  | newline _ ih | tab _ ih | other _ _ _ ih =>
    rw [List.cons_append, List.cons_append, literal]
    exact Nat.succ_le_succ (Nat.succ_le_succ ih)

/-- A literal that is closed is read as **what is quoted there**. -/
theorem quoted_of_literal (h : literal quote cs = ⟨some value, text, rest⟩) :
    ∃ spelled, Quoted quote spelled value ∧ text = spelled ++ [quote] := by
  fun_induction literal quote cs generalizing value text with
  | case1 | case2 => cases h
  | case3 c cs ih =>
    obtain ⟨value, text, hl, rfl, rfl⟩ := push_eq_iff.mp h
    obtain ⟨spelled, hspelled, rfl⟩ := ih hl
    exact ⟨'\\' :: c :: spelled, hspelled.escaped c, rfl⟩
  | case4 =>
    cases h
    exact ⟨[], .nil, rfl⟩
  | case5 c cs hnil hcons hne ih =>
    obtain ⟨value, text, hl, rfl, rfl⟩ := push_eq_iff.mp h
    obtain ⟨spelled, hspelled, rfl⟩ := ih hl
    exact ⟨c :: spelled, .plain hne (ne_backslash hnil hcons) hspelled, rfl⟩

/-- A literal that is not closed goes on **to the end of the text**, or to a backslash that is its
last character. -/
theorem quoted_of_literal_none (h : literal quote cs = ⟨none, text, rest⟩) :
    (∃ value, Quoted quote text value) ∧ (rest = [] ∨ rest = ['\\']) := by
  fun_induction literal quote cs generalizing text with
  | case1 =>
    cases h
    exact ⟨⟨[], .nil⟩, .inl rfl⟩
  | case2 =>
    cases h
    exact ⟨⟨[], .nil⟩, .inr rfl⟩
  | case3 c cs ih =>
    obtain ⟨text, hl, rfl⟩ := push_eq_none_iff.mp h
    obtain ⟨⟨value, hvalue⟩, hrest⟩ := ih hl
    exact ⟨⟨_, hvalue.escaped c⟩, hrest⟩
  | case4 => cases h
  | case5 c cs hnil hcons hne ih =>
    obtain ⟨text, hl, rfl⟩ := push_eq_none_iff.mp h
    obtain ⟨⟨value, hvalue⟩, hrest⟩ := ih hl
    exact ⟨⟨_, .plain hne (ne_backslash hnil hcons) hvalue⟩, hrest⟩

/-- What is read of a string literal is **the longest lexeme** at its quote. -/
theorem longest_literal (q : Quote) (cs : List Char) :
    Longest (q.char :: (literal q.char cs).text) (literal q.char cs).rest := by
  have hquote : q.char ≠ '\\' := by cases q <;> decide
  have hfamily : family q.char = .literal := by cases q <;> decide
  have hmatched : q.char :: (literal q.char cs).text ∈ (Pattern.literal q).language := by
    rcases hl : literal q.char cs with ⟨_ | value, text, rest⟩
    · obtain ⟨value, hvalue⟩ := (quoted_of_literal_none hl).1
      exact mem_literal.mpr ⟨text, value, [], hvalue, .inr rfl, by simp⟩
    · obtain ⟨spelled, hspelled, rfl⟩ := quoted_of_literal hl
      exact mem_literal.mpr ⟨spelled, value, _, hspelled, .inl rfl, rfl⟩
  refine .of_family (by rw [List.cons_append, literal_text_append_rest]) hmatched
    fun p w hp hw hfront => Nat.lt_succ_of_le ?_
  have hw : q.char :: w ∈ (Pattern.literal q).language := by
    rw [hfamily] at hp
    cases p with
    | literal q' =>
      obtain ⟨_, _, _, _, _, heq⟩ := mem_literal.mp hw
      have : q' = q := by cases q <;> cases q' <;> first | rfl | cases heq
      exact this ▸ hw
    | _ => cases hp
  obtain ⟨spelled, value, close, hspelled, hclose, hcons⟩ := mem_literal.mp hw
  have hwhole : w = spelled ++ close := (List.cons.inj hcons).2
  subst hwhole
  obtain ⟨more, rfl⟩ := hfront
  rcases hclose with rfl | rfl
  · rw [List.append_assoc, List.singleton_append, literal_of_quoted hquote hspelled _]
  · rw [List.append_nil]
    exact length_le_literal hspelled

end Literals

/-! ### What is cut off -/

/-- The class of the first character **that its family tells**. -/
theorem family_spec (c : Char) :
    match family c with
    | .space => IsSpace c
    | .word => IsLetter c
    | .numeral => IsDigit c
    | .literal => ∃ q : Quote, c = q.char
    | .sign => True := by
  unfold family
  split_ifs with hblank hword hnumeral hquote
  · exact isBlank_iff.mp hblank
  · exact beginsWord_iff.mp hword
  · exact isDigit_iff.mp hnumeral
  · exact isQuote_iff.mp hquote
  · trivial

/-- The family settles **how the first lexeme is cut off**. -/
theorem first_eq (c : Char) (cs : List Char) : first c cs =
    match family c with
    | .space => ⟨.blank, [c], cs⟩
    | .word => run continuesWord c cs fun word => .token (wordKind word)
    | .numeral => run continuesNumeral c cs fun numeral => .token (numeralKind numeral)
    | .literal => quotedCut c cs
    | .sign =>
      if c = '/' ∧ cs.head? = some '/' then run (· ≠ '\n') c cs fun _ => .blank
      else signCut c cs := by
  unfold first family
  split_ifs <;> rfl

theorem denotes_wordKind (h : w ∈ Pattern.word.language) : Denotes w (wordKind w) := by
  unfold wordKind
  split
  next k hk =>
    have hspelling : k.spelling.toList = w := by
      rw [Keyword.spelling_of_ofSpelling? hk, String.toList_ofList]
    exact hspelling ▸ .keyword k
  next hfree =>
    refine .name h fun k hk => ?_
    rw [hk, String.ofList_toList, Keyword.ofSpelling?_spelling] at hfree
    cases hfree

theorem denotes_numeralKind (h : w ∈ Pattern.numeral.language) : Denotes w (numeralKind w) :=
  have ⟨_, hpart, hd⟩ := exists_valuePart w
  .number h hpart hd

/-- A literal that is not closed **is closed by nothing** in the text. -/
theorem not_denotes_text (q : Quote) (h : (literal q.char cs).value? = none) (w : List Char)
    (value : String) (hw : w <+: q.char :: cs) : ¬ Denotes w (.text value) := by
  have hquote : q.char ≠ '\\' := by cases q <;> decide
  rintro ⟨⟩
  rename_i q' spelled value hspelled
  obtain ⟨hchar, more, rfl⟩ := List.cons_prefix_cons.mp hw
  rw [hchar] at hspelled h
  rw [List.append_eq, List.append_assoc, List.singleton_append,
    literal_of_quoted hquote hspelled _] at h
  cases h

/-- **What the scanner cuts off is the longest lexeme at its place**, and is taken for what the
lexeme denotes; where it has an error, the error concerns the text. White space is left aside. -/
theorem first_spec {lexeme : Lexeme} (hspace : ¬ IsSpace c)
    (hcut : first c cs = ⟨lexeme, text, rest⟩) :
    match lexeme with
    | .blank => Longest text rest ∧ Skipped text
    | .token kind => Longest text rest ∧ Denotes text kind
    | .unclosed => ∀ pos,
      LexError.Concerns ⟨.unclosedString, ⟨pos, pos + byteLength text⟩⟩ pos (c :: cs)
    | .stray d => ∀ pos,
      LexError.Concerns ⟨.strayCharacter d, ⟨pos, pos + byteLength text⟩⟩ pos (c :: cs) := by
  have hclass := family_spec c
  rw [first_eq] at hcut
  cases hfamily : family c with
  | space =>
    rw [hfamily] at hclass
    exact absurd hclass hspace
  | word =>
    simp only [hfamily, run, Cut.mk.injEq] at hcut hclass
    obtain ⟨rfl, rfl, rfl⟩ := hcut
    obtain ⟨hmatched, hlongest⟩ := longest_word cs hclass
    exact ⟨hlongest, denotes_wordKind hmatched⟩
  | numeral =>
    simp only [hfamily, run, Cut.mk.injEq] at hcut hclass
    obtain ⟨rfl, rfl, rfl⟩ := hcut
    obtain ⟨hmatched, hlongest⟩ := longest_numeral cs hclass
    exact ⟨hlongest, denotes_numeralKind hmatched⟩
  | literal =>
    simp only [hfamily] at hcut hclass
    obtain ⟨q, rfl⟩ := hclass
    have hlongest := longest_literal q cs
    rcases hl : literal q.char cs with ⟨_ | value, read, more⟩
    · simp only [quotedCut, hl, Cut.mk.injEq] at hcut hlongest
      obtain ⟨rfl, rfl, rfl⟩ := hcut
      intro pos
      refine .unclosed ?_ hlongest (quoted_of_literal_none hl).2
        (not_denotes_text q (by rw [hl]))
      rw [List.cons_append, ← literal_text_append_rest q.char cs, hl]
    · simp only [quotedCut, hl, Cut.mk.injEq] at hcut hlongest
      obtain ⟨rfl, rfl, rfl⟩ := hcut
      obtain ⟨spelled, hspelled, rfl⟩ := quoted_of_literal hl
      exact ⟨hlongest, .text q hspelled⟩
  | sign =>
    simp only [hfamily] at hcut
    split at hcut
    next hcomment =>
      obtain ⟨rfl, hhead⟩ := hcomment
      simp only [run, Cut.mk.injEq] at hcut
      obtain ⟨rfl, rfl, rfl⟩ := hcut
      obtain ⟨hmatched, hlongest⟩ := longest_comment hhead
      exact ⟨hlongest, .inr hmatched⟩
    next hcomment =>
      have htext := (signCut_text_append_rest c cs).1
      rw [hcut] at htext
      unfold signCut at hcut
      split at hcut
      next sign kind hfind =>
        simp only [Cut.mk.injEq] at hcut
        obtain ⟨rfl, rfl, -⟩ := hcut
        exact ⟨longest_sign hfamily hcomment htext hfind,
          denotes_of_sign (List.mem_of_find?_eq_some hfind)⟩
      next hfind =>
        simp only [Cut.mk.injEq] at hcut
        obtain ⟨rfl, rfl, rfl⟩ := hcut
        exact fun pos => .stray (not_prefix_of_stray hfamily hcomment hfind)

/-! ### Lexemes that stand alone -/

/-- A run of characters of a class that stands alone is cut off **whole**. -/
theorem run_of_forall {p : Char → Bool} {make : List Char → Lexeme} (h : ∀ d ∈ cs, p d) :
    run p c cs make = ⟨make (c :: cs), c :: cs, []⟩ := by
  have htake : cs.takeWhile p = cs := List.takeWhile_eq_self_iff.mpr h
  have hdrop : cs.dropWhile p = [] := List.dropWhile_eq_nil_iff.mpr h
  rw [run, htake, hdrop]

theorem first_of_word (h : c :: cs ∈ Pattern.word.language) :
    first c cs = ⟨.token (wordKind (c :: cs)), c :: cs, []⟩ := by
  obtain ⟨_, _, ⟨⟩, hc, hcs⟩ := mem_word.mp h
  rw [first_eq, family_of_isLetter hc]
  exact run_of_forall fun d hd => continuesWord_iff.mpr (hcs d hd)

/-- A lexeme that denotes a token **is scanned as that token** when it stands alone. -/
theorem Denotes.first_eq (h : Denotes w kind) :
    ∃ c cs, w = c :: cs ∧ first c cs = ⟨.token kind, w, []⟩ := by
  cases h with
  | keyword k =>
    obtain ⟨c, cs, hw, -⟩ := mem_word.mp (Pattern.keyword_mem_word k)
    refine ⟨c, cs, hw, ?_⟩
    rw [first_of_word (hw ▸ Pattern.keyword_mem_word k), ← hw, wordKind, String.ofList_toList,
      Keyword.ofSpelling?_spelling]
  | name hword hfree =>
    obtain ⟨c, cs, rfl, -⟩ := mem_word.mp hword
    refine ⟨c, cs, rfl, ?_⟩
    have hnone : Keyword.ofSpelling? (String.ofList (c :: cs)) = none := by
      rw [Option.eq_none_iff_forall_ne_some]
      intro k hk
      exact hfree k (by rw [Keyword.spelling_of_ofSpelling? hk, String.toList_ofList])
    rw [first_of_word hword, wordKind, hnone]
  | number hnumeral hpart hd =>
    obtain ⟨c, cs, rfl, hc, hcs⟩ := mem_numeral.mp hnumeral
    refine ⟨c, cs, rfl, ?_⟩
    obtain ⟨part, hpart', hd'⟩ := exists_valuePart (c :: cs)
    obtain rfl := hpart.unique hpart'
    rw [Lexeme.first_eq, family_of_isDigit hc, hd.unique hd']
    exact run_of_forall fun d hd => continuesNumeral_iff.mpr (hcs d hd)
  | text q h =>
    have hquote : q.char ≠ '\\' := by cases q <;> decide
    have hfamily : family q.char = .literal := by cases q <;> decide
    refine ⟨q.char, _, rfl, ?_⟩
    rw [Lexeme.first_eq, hfamily]
    have hread := literal_of_quoted hquote h []
    simp only [quotedCut, List.append_eq, hread]
    rfl
  | operator op => cases op <;> exact ⟨_, _, rfl, rfl⟩
  | mark m => cases m <;> exact ⟨_, _, rfl, rfl⟩

/-- A lexeme denotes **one** token. -/
theorem Denotes.unique {kind' : Token.Kind} (h : Denotes w kind) (h' : Denotes w kind') :
    kind = kind' := by
  obtain ⟨c, cs, rfl, hcut⟩ := h.first_eq
  obtain ⟨_, _, ⟨⟩, hcut'⟩ := h'.first_eq
  rw [hcut] at hcut'
  cases hcut'
  rfl

end Lexeme

end ScopeScript
