import Mathlib.Algebra.Ring.Parity
import Mathlib.Data.List.DropRight
import ScopeScript.Proofs.DeclaredNames
import ScopeScript.Proofs.Layout

/-!
# String literals

**Every text can be written as a string literal, and every string literal says what it denotes**
(`ScopeScript.string_literals`). A text is written between two quotes of either kind, with a
backslash before each quote of that kind and before each backslash; all else stands as it is, line
ends too. Conversely the text between the quotes of a literal is read from the left, where a
backslash takes the next character with it, and the literal ends at the first quote of its kind that
no backslash takes.

Whether a quote is taken can be told from what stands right before it: it is if the run of
backslashes there is odd (`ScopeScript.IsEscaped`). The scanner counts no backslashes; it goes
through the literal piece by piece (`ScopeScript.Quoted`), and between two pieces nothing is
escaped.
-/

namespace ScopeScript

/-! ### Writing a text between quotes -/

namespace Quote

variable (q : Quote)

/-- How a character is **written between quotes**: behind a backslash, if it is one or a quote of
the same kind. -/
def spell (c : Char) : List Char :=
  if c = '\\' ∨ c = q.char then ['\\', c] else [c]

/-- The **string literal** for a text. -/
def literal (s : String) : String :=
  String.ofList (q.char :: s.toList.flatMap q.spell ++ [q.char])

theorem char_ne_backslash : q.char ≠ '\\' := by
  cases q <;> decide

/-- No letter stands for another character **where a text is written**: what stands behind a
backslash is a backslash or a quote. -/
theorem spell_cases (c : Char) :
    (q.spell c = ['\\', c] ∧ c ≠ 'n' ∧ c ≠ 't') ∨ (q.spell c = [c] ∧ c ≠ q.char ∧ c ≠ '\\') := by
  have hquote : q.char ≠ 'n' ∧ q.char ≠ 't' := by cases q <;> decide
  unfold spell
  split
  · next h =>
    refine .inl ⟨rfl, ?_⟩
    rcases h with rfl | rfl
    · decide
    · exact hquote
  · next h =>
    obtain ⟨hslash, hchar⟩ := not_or.mp h
    exact .inr ⟨rfl, hchar, hslash⟩

/-- What is written between the quotes **denotes the text**. -/
theorem quoted_spell (cs : List Char) : Quoted q.char (cs.flatMap q.spell) cs := by
  induction cs with
  | nil => exact .nil
  | cons c cs ih =>
    rw [List.flatMap_cons]
    rcases q.spell_cases c with ⟨hspell, hn, ht⟩ | ⟨hspell, hquote, hslash⟩
    · rw [hspell]
      exact .other hn ht ih
    · rw [hspell]
      exact .plain hquote hslash ih

/-- **The literal for a text denotes the text.** -/
theorem denotes_literal (s : String) : Lexeme.Denotes (q.literal s).toList (.text s) := by
  have hdenotes := Lexeme.Denotes.text q (q.quoted_spell s.toList)
  rw [String.ofList_toList] at hdenotes
  rwa [literal, String.toList_ofList]

end Quote

/-! ### Printing a literal -/

/-- A single token behind the word for printing is **a program that prints it**. -/
theorem Program.spelled_of_printed {e : Expr} {t : Token} {word stop : Span}
    (h : Derives (nestingLimit - 1) (.primary e) [t, ⟨.endOfInput, stop⟩] [⟨.endOfInput, stop⟩]) :
    Program.Spelled ⟨[.print e (word.merge e.span)]⟩
      [⟨.keyword .print, word⟩, t, ⟨.endOfInput, stop⟩] := by
  have hlevel := Derives.loosest (.tightest (.unsigned (.callee h))) (Nat.le_refl _)
  exact ⟨stop, .moreStatements (.plain (.print (hlevel.expression .atEnd))) .noStatements⟩

/-- A literal behind the word for printing is **a program that prints**. -/
theorem Quote.ofSource_print (q : Quote) (s : String) :
    ∃ span whole, Program.ofSource ("print " ++ q.literal s) =
      .ok ⟨[.print (.literal (.text s) span) whole]⟩ := by
  have hliteral (pos : Nat) : Scanned pos ((q.literal s).toList ++ []) _ :=
    .lexeme (q.denotes_literal s) (.inl rfl) .nil
  have hbehind (pos : Nat) : Scanned pos (' ' :: ((q.literal s).toList ++ [])) _ :=
    .blank (Lexeme.first_space (by decide)) (hliteral _)
  have hscanned : Scanned 0 (Keyword.print.spelling.toList ++ _) _ :=
    .lexeme (.keyword .print) (.inr ⟨' ', _, rfl, by decide⟩) (hbehind _)
  have htext : Keyword.print.spelling.toList ++ ' ' :: ((q.literal s).toList ++ []) =
      ("print " ++ q.literal s).toList := by
    rw [List.append_nil, String.toList_append]
    rfl
  rw [htext] at hscanned
  exact ⟨_, _, hscanned.ofSource_eq (Program.spelled_of_printed .text)⟩

/-- **Printing a literal** adds the text that it denotes to the lines printed. -/
theorem Quote.runSource_print (q : Quote) (s : String) (it : Interpreter) (bounds : Bounds) :
    ∃ it', it.runSource bounds ("print " ++ q.literal s) = some (.ok .null, it') ∧
      it'.output = it.output ++ [s] := by
  obtain ⟨span, whole, hp⟩ := q.ofSource_print s
  refine ⟨{ it.nextText.2 with state := it.state.print s }, ?_, Array.toList_push⟩
  rw [Interpreter.runSource, hp]
  rfl

/-! ### Reading what stands between quotes -/

/-- What stands between quotes, **read from the left**: a backslash and a letter may stand for a
newline or a tab, and any other character behind a backslash stands for itself. -/
def readEscapes : List Char → List Char
  | '\\' :: 'n' :: cs => '\n' :: readEscapes cs
  | '\\' :: 't' :: cs => '\t' :: readEscapes cs
  | '\\' :: c :: cs => c :: readEscapes cs
  | c :: cs => c :: readEscapes cs
  | [] => []

/-- A character that has the text before it **is escaped**: the run of backslashes right before it
is odd. -/
def IsEscaped (before : List Char) : Prop :=
  Odd (before.rtakeWhile (· = '\\')).length

theorem not_isEscaped_nil : ¬ IsEscaped [] := by
  simp [IsEscaped]

/-- **A backslash escapes** what stands behind it, unless it is escaped itself. -/
theorem isEscaped_concat {before : List Char} {c : Char} :
    IsEscaped (before ++ [c]) ↔ c = '\\' ∧ ¬ IsEscaped before := by
  by_cases hc : c = '\\'
  · simp [IsEscaped, hc, Nat.odd_add_one]
  · simp [IsEscaped, hc]

theorem isEscaped_singleton {c : Char} : IsEscaped [c] ↔ c = '\\' :=
  (@isEscaped_concat [] c).trans (and_iff_left not_isEscaped_nil)

/-- What is no backslash **does not escape**. -/
theorem isEscaped_cons {c : Char} (hc : c ≠ '\\') (before : List Char) :
    IsEscaped (c :: before) ↔ IsEscaped before := by
  induction before using List.reverseRecOn with
  | nil => exact iff_of_false (mt isEscaped_singleton.mp hc) not_isEscaped_nil
  | append_singleton before d ih =>
    rw [← List.cons_append, isEscaped_concat, isEscaped_concat, ih]

/-- A backslash has **no effect beyond the character** that it takes. -/
theorem isEscaped_pair (c : Char) (before : List Char) :
    IsEscaped ('\\' :: c :: before) ↔ IsEscaped before := by
  induction before using List.reverseRecOn with
  | nil =>
    have hslash : IsEscaped ['\\'] := isEscaped_singleton.mpr rfl
    exact iff_of_false (fun h => ((@isEscaped_concat ['\\'] c).mp h).2 hslash) not_isEscaped_nil
  | append_singleton before d ih =>
    rw [← List.cons_append, ← List.cons_append, isEscaped_concat, isEscaped_concat, ih]

/-- **A literal ends at its first quote that is not escaped.** -/
structure EndsAtQuote (quote : Char) (spelled : List Char) : Prop where
  /-- The quote behind the text is not escaped. -/
  close : ¬ IsEscaped spelled
  /-- All quotes in the text are. -/
  first : ∀ before after, spelled = before ++ quote :: after → IsEscaped before

namespace EndsAtQuote

variable {quote c : Char} {spelled : List Char}

theorem nil (quote : Char) : EndsAtQuote quote [] :=
  ⟨not_isEscaped_nil, fun before after h => by simp at h⟩

theorem cons (h : EndsAtQuote quote spelled) (hquote : c ≠ quote) (hslash : c ≠ '\\') :
    EndsAtQuote quote (c :: spelled) where
  close := mt (isEscaped_cons hslash spelled).mp h.close
  first before after heq := by
    rcases before with _ | ⟨b, before⟩
    · exact absurd (List.cons.inj heq).1 hquote
    · obtain ⟨rfl, htail⟩ := List.cons.inj heq
      exact (isEscaped_cons hslash before).mpr (h.first before after htail)

theorem pair (h : EndsAtQuote quote spelled) (hquote : quote ≠ '\\') (c : Char) :
    EndsAtQuote quote ('\\' :: c :: spelled) where
  close := mt (isEscaped_pair c spelled).mp h.close
  first before after heq := by
    rcases before with _ | ⟨b, _ | ⟨d, before⟩⟩
    · exact absurd (List.cons.inj heq).1.symm hquote
    · obtain ⟨rfl, -⟩ := List.cons.inj heq
      exact isEscaped_singleton.mpr rfl
    · obtain ⟨rfl, htail⟩ := List.cons.inj heq
      obtain ⟨rfl, hrest⟩ := List.cons.inj htail
      exact (isEscaped_pair c before).mpr (h.first before after hrest)

end EndsAtQuote

namespace Quoted

variable {quote : Char} {spelled value : List Char}

/-- **What is quoted** is what is read from the left. -/
theorem readEscapes_eq (h : Quoted quote spelled value) : readEscapes spelled = value := by
  induction h with
  | nil => rfl
  | plain _ hslash _ ih => rw [readEscapes, ih] <;> simp [hslash]
  | newline _ ih | tab _ ih => rw [readEscapes, ih]
  | other hn ht _ ih => rw [readEscapes, ih] <;> simp [hn, ht]

/-- What is quoted **ends at the first quote that is not escaped**. -/
theorem endsAtQuote (h : Quoted quote spelled value) (hquote : quote ≠ '\\') :
    EndsAtQuote quote spelled := by
  induction h with
  | nil => exact .nil quote
  | plain hne hslash _ ih => exact ih.cons hne hslash
  | newline _ ih | tab _ ih | other _ _ _ ih => exact ih.pair hquote _

end Quoted

/-- A token that denotes a text **is a string literal**, closed by its first quote that is not
escaped. -/
theorem Lexeme.Denotes.literal_of_text {w : List Char} {value : String}
    (h : Lexeme.Denotes w (.text value)) : ∃ (q : Quote) (spelled : List Char),
      w = q.char :: spelled ++ [q.char] ∧ value = String.ofList (readEscapes spelled) ∧
        EndsAtQuote q.char spelled := by
  cases h with
  | text q h =>
    rw [← h.readEscapes_eq]
    exact ⟨q, _, rfl, rfl, h.endsAtQuote q.char_ne_backslash⟩

/-- **Every text can be written as a literal, and every literal says what it denotes.** With a
backslash before each backslash and each quote, a text between two quotes is a single token, which
denotes the text and takes all that is written; to print it emits the text. Conversely a token of
any source that denotes a text stands between two quotes there. It denotes what stands between them
read from the left, and the second quote is the first that is not escaped. -/
theorem string_literals :
    (∀ (q : Quote) (s : String),
      tokenize (q.literal s) = .ok [⟨.text s, ⟨0, (q.literal s).utf8ByteSize⟩⟩,
        Token.endAt (q.literal s).utf8ByteSize] ∧
      ∀ (it : Interpreter) (bounds : Bounds), ∃ it',
        it.runSource bounds ("print " ++ q.literal s) = some (.ok .null, it') ∧
          it'.output = it.output ++ [s]) ∧
    ∀ (source : String) (tokens : List Token), tokenize source = .ok tokens →
      ∀ t ∈ tokens, ∀ value, t.kind = .text value → ∃ (q : Quote) (spelled : List Char),
        t.span.Cuts source (String.ofList (q.char :: spelled ++ [q.char])) ∧
          value = String.ofList (readEscapes spelled) ∧ EndsAtQuote q.char spelled := by
  refine ⟨fun q s => ⟨(q.denotes_literal s).tokenize_eq, q.runSource_print s⟩, ?_⟩
  rintro source tokens htokens ⟨kind, span⟩ ht value rfl
  rcases (tokensFrom_eq_ok_iff.mp htokens).exists_cuts_or_eq ht with ⟨text, hcuts, hdenotes⟩ | hend
  · obtain ⟨q, spelled, htext, hvalue, hends⟩ := hdenotes.literal_of_text
    rw [← String.ofList_toList (s := text), htext] at hcuts
    exact ⟨q, spelled, hcuts, hvalue, hends⟩
  · cases hend

/-- A quote of the same kind and a backslash, which stands right before the closing quote. -/
theorem string_literals_escaped :
    tokenize "'\\'\\\\'" = .ok [⟨.text "'\\", ⟨0, 6⟩⟩, Token.endAt 6] ∧
      (∃ it', (Interpreter.new {}).runSource ⟨0, 0⟩ "print '\\'\\\\'" = some (.ok .null, it') ∧
        it'.output = ["'\\"]) ∧
      ∃ (q : Quote) (spelled : List Char),
        Span.Cuts ⟨0, 6⟩ "'\\'\\\\'" (String.ofList (q.char :: spelled ++ [q.char])) ∧
          "'\\" = String.ofList (readEscapes spelled) ∧ EndsAtQuote q.char spelled := by
  obtain ⟨hwritten, hread⟩ := string_literals
  obtain ⟨htokens, hprinted⟩ := hwritten .single "'\\"
  have hliteral : Quote.single.literal "'\\" = "'\\'\\\\'" := by decide
  have hsize : "'\\'\\\\'".utf8ByteSize = 6 := rfl
  rw [hliteral, hsize] at htokens
  rw [hliteral] at hprinted
  exact ⟨htokens, hprinted (Interpreter.new {}) ⟨0, 0⟩,
    hread _ _ htokens _ List.mem_cons_self _ rfl⟩

end ScopeScript
