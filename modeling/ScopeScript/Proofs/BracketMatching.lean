import ScopeScript.Console.Brackets
import ScopeScript.Proofs.MaximalMunch

/-!
# Brackets of a text and of its tokens

At the console an input is looked through character by character for brackets that are open, and
with rules of its own for string literals, escapes and comments. **It sees the brackets that the
scanner sees** (`ScopeScript.verdict_eq_matching`): the verdict on a text is what comes out when the
brackets among its tokens are matched with a stack. If a string literal in the text is not closed,
the tokens before it decide whether some bracket is wrong, and otherwise the input goes on.

Both sides read the same lexemes. The characters of most of them mean nothing for brackets, so the
verdict passes over them (`ScopeScript.Verdict.scan_run`); what has to be shown is that it leaves a
literal and a comment where they end, and that it never takes a stroke for the beginning of a
comment.
-/

namespace ScopeScript

/-! ### Matching with a stack -/

/-- The sorts of **brackets**. -/
inductive Bracket where
  /-- Parentheses. -/
  | parenthesis
  /-- Braces. -/
  | brace
deriving DecidableEq

namespace Bracket

/-- The mark that opens a bracket. -/
def opening : Bracket → Mark
  | parenthesis => .leftParen
  | brace => .leftBrace

/-- The mark that closes a bracket. -/
def closing : Bracket → Mark
  | parenthesis => .rightParen
  | brace => .rightBrace

/-- The character that opens a bracket. -/
def openingChar : Bracket → Char
  | parenthesis => '('
  | brace => '\x7b'

/-- The character that closes a bracket. -/
def closingChar : Bracket → Char
  | parenthesis => ')'
  | brace => '\x7d'

/-- Closes **the innermost bracket**, which must be of this sort. -/
def close (b : Bracket) : List Bracket → Option (List Bracket)
  | o :: rest => if o = b then some rest else none
  | [] => none

theorem spelling_opening (b : Bracket) : b.opening.spelling.toList = [b.openingChar] := by
  cases b <;> decide

theorem spelling_closing (b : Bracket) : b.closing.spelling.toList = [b.closingChar] := by
  cases b <;> decide

theorem close_eq_none_iff {b : Bracket} {opened : List Bracket} :
    b.close opened = none ↔ opened.head? ≠ some b := by
  fun_cases close b opened <;> simp_all

theorem close_eq_some_iff {b : Bracket} {opened left : List Bracket} :
    b.close opened = some left ↔ opened = b :: left := by
  fun_cases close b opened <;> simp_all

end Bracket

/-- What a token does to **the brackets that are open**, the innermost of them first. An opening
bracket is one more; a closing bracket closes the innermost, which must be of its own sort; any
other token does nothing. -/
def Token.Kind.onBrackets (opened : List Bracket) : Token.Kind → Option (List Bracket)
  | .mark .leftParen => some (.parenthesis :: opened)
  | .mark .leftBrace => some (.brace :: opened)
  | .mark .rightParen => Bracket.parenthesis.close opened
  | .mark .rightBrace => Bracket.brace.close opened
  | _ => some opened

/-- **Matches brackets with a stack**: the brackets that are open behind the tokens, if no closing
bracket among them is wrong. -/
def matchBrackets (opened : List Bracket) (kinds : List Token.Kind) : Option (List Bracket) :=
  kinds.foldlM Token.Kind.onBrackets opened

/-- The **first closing bracket that matches nothing**, by its character and its byte: the tokens
before it are matched, and the innermost bracket that is open then, if there is one, is of the other
sort. -/
def FirstUnmatched (tokens : List Token) (c : Char) (pos : Nat) : Prop :=
  ∃ before t after opened b, tokens = before ++ t :: after ∧
    matchBrackets [] (before.map Token.kind) = some opened ∧
    t.kind = .mark b.closing ∧ opened.head? ≠ some b ∧ c = b.closingChar ∧ pos = t.span.start

section Matching

variable {opened left : List Bracket} {k : Token.Kind} {ks ks' : List Token.Kind} {b : Bracket}

@[simp] theorem Token.Kind.onBrackets_opening :
    (Token.Kind.mark b.opening).onBrackets opened = some (b :: opened) := by
  cases b <;> rfl

@[simp] theorem Token.Kind.onBrackets_closing :
    (Token.Kind.mark b.closing).onBrackets opened = b.close opened := by
  cases b <;> rfl

/-- Only a closing bracket **can be wrong**. -/
theorem Token.Kind.onBrackets_eq_none_iff :
    k.onBrackets opened = none ↔ ∃ b : Bracket, k = .mark b.closing ∧ opened.head? ≠ some b := by
  constructor
  · intro h
    unfold Token.Kind.onBrackets at h
    split at h
    · contradiction
    · contradiction
    · exact ⟨.parenthesis, rfl, Bracket.close_eq_none_iff.mp h⟩
    · exact ⟨.brace, rfl, Bracket.close_eq_none_iff.mp h⟩
    · contradiction
  · rintro ⟨b, rfl, h⟩
    rw [onBrackets_closing]
    exact Bracket.close_eq_none_iff.mpr h

theorem matchBrackets_cons : matchBrackets opened (k :: ks) =
    (k.onBrackets opened).bind (matchBrackets · ks) :=
  List.foldlM_cons

theorem matchBrackets_append : matchBrackets opened (ks ++ ks') =
    (matchBrackets opened ks).bind (matchBrackets · ks') :=
  List.foldlM_append

/-- Either all is matched, or there is **a first bracket that is wrong**. -/
theorem exists_matched_or_unmatched (opened : List Bracket) (tokens : List Token) :
    (∃ left, matchBrackets opened (tokens.map Token.kind) = some left) ∨
      ∃ before t after left b, tokens = before ++ t :: after ∧
        matchBrackets opened (before.map Token.kind) = some left ∧
        t.kind = .mark b.closing ∧ left.head? ≠ some b := by
  induction tokens generalizing opened with
  | nil => exact .inl ⟨opened, rfl⟩
  | cons t ts ih =>
    rw [List.map_cons, matchBrackets_cons]
    cases ht : t.kind.onBrackets opened with
    | none =>
      obtain ⟨b, hb, hhead⟩ := Token.Kind.onBrackets_eq_none_iff.mp ht
      exact .inr ⟨[], t, ts, opened, b, rfl, rfl, hb, hhead⟩
    | some next =>
      rcases ih next with h | ⟨before, u, after, left, b, rfl, hbefore, hu⟩
      · exact .inl h
      · refine .inr ⟨t :: before, u, after, left, b, rfl, ?_, hu⟩
        rw [List.map_cons, matchBrackets_cons, ht]
        exact hbefore

end Matching

/-! ### Passing over characters -/

namespace Verdict

variable {opened : List Char} {pos : Nat} {c quote : Char} {cs text rest spelled value : List Char}

/-- The characters that **mean something for brackets** in the code. -/
def marked : List Char :=
  ['"', '\x27', '/', '(', '\x7b', ')', '\x7d']

/-- A class of characters **without the marked ones**. -/
theorem not_mem_marked {p : Char → Bool} (hp : marked.all fun c => !p c) (hc : p c) :
    c ∉ marked := by
  intro hmem
  have := List.all_eq_true.mp hp c hmem
  simp [hc] at this

/-- A text **without the marked ones**. -/
theorem forall_not_mem_marked (h : text.all fun c => !marked.contains c) :
    ∀ c ∈ text, c ∉ marked := by
  simpa using h

theorem scan_plain (hc : c ∉ marked) :
    scan .code opened pos (c :: cs) = scan .code opened (pos + c.utf8Size) cs := by
  simp only [marked, List.mem_cons, List.not_mem_nil, or_false, not_or] at hc
  simp [scan, hc]

/-- Code **without marked characters** is passed over. -/
theorem scan_run (h : ∀ c ∈ text, c ∉ marked) :
    scan .code opened pos (text ++ rest) = scan .code opened (pos + byteLength text) rest := by
  induction text generalizing pos with
  | nil => rfl
  | cons c text ih =>
    obtain ⟨hc, htext⟩ := List.forall_mem_cons.mp h
    rw [List.cons_append, scan_plain hc, ih htext, byteLength_cons, Nat.add_assoc]

/-- A stroke alone is passed over too: **no comment begins** with it. -/
theorem scan_slash (h : rest.head? ≠ some '/') :
    scan .code opened pos ('/' :: rest) = scan .code opened (pos + 1) rest := by
  simp [scan, h]
  rfl

theorem scan_opening (b : Bracket) : scan .code opened pos (b.openingChar :: rest) =
    scan .code (b.openingChar :: opened) (pos + 1) rest := by
  cases b <;> rfl

/-- A closing bracket closes the innermost bracket, **or is told**. -/
theorem scan_closing (b : Bracket) (opened : List Bracket) :
    scan .code (opened.map Bracket.openingChar) pos (b.closingChar :: rest) =
      match b.close opened with
      | some left => scan .code (left.map Bracket.openingChar) (pos + 1) rest
      | none => unmatched b.closingChar pos := by
  rcases opened with _ | ⟨o, opened⟩
  · cases b <;> rfl
  · cases b <;> cases o <;> rfl

/-- The line of a comment is passed over **up to its end**. -/
theorem scan_comment (h : ∀ c ∈ text, c ≠ '\n') : scan .comment opened pos (text ++ rest) =
    scan .comment opened (pos + byteLength text) rest := by
  induction text generalizing pos with
  | nil => rfl
  | cons c text ih =>
    obtain ⟨hc, htext⟩ := List.forall_mem_cons.mp h
    rw [List.cons_append, scan]
    simp only [if_neg hc]
    rw [ih htext, byteLength_cons, Nat.add_assoc]

/-- Behind the line of a comment **the code goes on**. -/
theorem scan_comment_end (h : ∀ c ∈ rest.head?, c = '\n') :
    scan .comment opened pos rest = scan .code opened pos rest := by
  cases rest with
  | nil => rfl
  | cons c rest =>
    obtain rfl := h c rfl
    rfl

theorem scan_literal_cons (hc : c ≠ '\\') : scan (.literal quote) opened pos (c :: cs) =
    scan (if c = quote then .code else .literal quote) opened (pos + c.utf8Size) cs := by
  simp [scan, hc]

theorem scan_literal_escape : scan (.literal quote) opened pos ('\\' :: c :: cs) =
    scan (.literal quote) opened (pos + 1 + c.utf8Size) cs := by
  simp [scan]
  rfl

/-- **What stands between quotes** is passed over, whatever it is. -/
theorem scan_quoted (h : Quoted quote spelled value) :
    scan (.literal quote) opened pos (spelled ++ rest) =
      scan (.literal quote) opened (pos + byteLength spelled) rest := by
  have hslash : '\\'.utf8Size = 1 := rfl
  induction h generalizing pos with
  | nil => rfl
  | plain hquote hplain _ ih =>
    rw [List.cons_append, scan_literal_cons hplain, if_neg hquote, ih, byteLength_cons,
      Nat.add_assoc]
  | newline _ ih | tab _ ih | other _ _ _ ih =>
    rw [List.cons_append, List.cons_append, scan_literal_escape, ih, byteLength_cons,
      byteLength_cons, hslash, Nat.add_assoc, Nat.add_assoc]

/-- A literal that is not closed **waits for more**. -/
theorem scan_unclosed (h : (Lexeme.literal quote cs).value? = none) :
    scan (.literal quote) opened pos cs = incomplete := by
  rcases hl : Lexeme.literal quote cs with ⟨value?, text, rest⟩
  rw [hl] at h
  obtain rfl : value? = none := h
  obtain ⟨⟨value, hvalue⟩, hrest⟩ := Lexeme.quoted_of_literal_none hl
  have hcs := Lexeme.literal_text_append_rest quote cs
  simp only [hl] at hcs
  rw [← hcs, scan_quoted hvalue]
  rcases hrest with rfl | rfl <;> rfl

end Verdict

/-! ### Passing over lexemes -/

namespace Lexeme

open Verdict

variable {opened left : List Bracket} {pos : Nat} {text rest cs : List Char} {kind : Token.Kind}

/-- A comment that is the longest lexeme at its place ends **with the line**. -/
theorem Longest.comment_end (h : Longest text rest) (hcomment : text ∈ Pattern.comment.language) :
    ∀ c ∈ rest.head?, c = '\n' := by
  intro c hc
  by_contra hne
  obtain ⟨rest, rfl⟩ := List.head?_eq_some_iff.mp hc
  obtain ⟨line, rfl, hline⟩ := mem_comment.mp hcomment
  -- with one more character it would be a comment, too
  have hlonger : '/' :: '/' :: (line ++ [c]) ∈ Pattern.comment.language :=
    mem_comment.mpr ⟨_, rfl, fun d hd => (List.mem_append.mp hd).elim (hline d) fun hd =>
      List.mem_singleton.mp hd ▸ hne⟩
  have hle := h.longest _ _ hlonger ⟨rest, by simp⟩
  simp only [List.length_cons, List.length_append, List.length_nil] at hle
  omega

/-- A stroke that is the longest lexeme at its place has **no other stroke behind it**. -/
theorem Longest.head?_ne_slash (h : Longest ['/'] rest) : rest.head? ≠ some '/' := by
  intro hhead
  obtain ⟨rest, rfl⟩ := List.head?_eq_some_iff.mp hhead
  have hle := h.longest .comment ['/', '/'] (mem_comment.mpr ⟨[], rfl, by simp⟩) ⟨rest, rfl⟩
  simp at hle

/-- White space and comments are passed over. -/
theorem scan_skipped (hlongest : Longest text rest) (hskipped : Skipped text)
    (opened : List Char) : scan .code opened pos (text ++ rest) =
      scan .code opened (pos + byteLength text) rest := by
  rcases hskipped with h | h
  · obtain ⟨c, cs, rfl, hc, hcs⟩ := mem_whiteSpace.mp h
    refine scan_run fun d hd => not_mem_marked (p := isBlank) (by decide) (isBlank_iff.mpr ?_)
    exact List.forall_mem_cons.mpr ⟨hc, hcs⟩ d hd
  · have hend := hlongest.comment_end h
    obtain ⟨line, rfl, hline⟩ := mem_comment.mp h
    have hall : ∀ c ∈ '/' :: line, c ≠ '\n' := List.forall_mem_cons.mpr ⟨by decide, hline⟩
    have hopen : scan .code opened pos ('/' :: '/' :: line ++ rest) =
        scan .comment opened (pos + 1) ('/' :: line ++ rest) := rfl
    rw [hopen, scan_comment hall, scan_comment_end hend, byteLength_cons _ ('/' :: line),
      Nat.add_assoc]
    rfl

/-- **A token is passed over**, with what it does to the brackets. -/
theorem scan_denoted (hlongest : Longest text rest) (hdenotes : Denotes text kind)
    (hkind : kind.onBrackets opened = some left) :
    scan .code (opened.map Bracket.openingChar) pos (text ++ rest) =
      scan .code (left.map Bracket.openingChar) (pos + byteLength text) rest := by
  cases hdenotes with
  | keyword k =>
    cases hkind
    obtain ⟨c, cs, hk, hc, hcs⟩ := mem_word.mp (Pattern.keyword_mem_word k)
    rw [hk]
    refine scan_run fun d hd => not_mem_marked (p := continuesWord) (by decide) ?_
    exact continuesWord_iff.mpr (List.forall_mem_cons.mpr ⟨.inl hc, hcs⟩ d hd)
  | name hword _ =>
    cases hkind
    obtain ⟨c, cs, rfl, hc, hcs⟩ := mem_word.mp hword
    refine scan_run fun d hd => not_mem_marked (p := continuesWord) (by decide) ?_
    exact continuesWord_iff.mpr (List.forall_mem_cons.mpr ⟨.inl hc, hcs⟩ d hd)
  | number hnumeral _ _ =>
    cases hkind
    obtain ⟨c, cs, rfl, hc, hcs⟩ := mem_numeral.mp hnumeral
    refine scan_run fun d hd => not_mem_marked (p := continuesNumeral) (by decide) ?_
    exact continuesNumeral_iff.mpr (List.forall_mem_cons.mpr ⟨.inl hc, hcs⟩ d hd)
  | @text q spelled value hquoted =>
    cases hkind
    have hquote : q.char ≠ '\\' := by cases q <;> decide
    have hopen : scan .code (opened.map Bracket.openingChar) pos
        (q.char :: spelled ++ [q.char] ++ rest) =
          scan (.literal q.char) (opened.map Bracket.openingChar) (pos + q.char.utf8Size)
            (spelled ++ q.char :: rest) := by
      rw [List.append_assoc]
      cases q <;> rfl
    rw [hopen, scan_quoted hquoted, scan_literal_cons hquote, if_pos rfl]
    simp [Nat.add_assoc]
  | operator op =>
    cases hkind
    by_cases hslash : op = .dividedBy
    · subst hslash
      exact scan_slash hlongest.head?_ne_slash
    · refine scan_run (forall_not_mem_marked ?_)
      cases op <;> first | contradiction | decide
  | mark m =>
    have hbrackets : (∃ b : Bracket, m = b.opening) ∨ (∃ b : Bracket, m = b.closing) ∨
        (∀ c ∈ m.spelling.toList, c ∉ marked) ∧
          Token.Kind.onBrackets opened (.mark m) = some opened := by
      cases m with
      | leftParen => exact .inl ⟨.parenthesis, rfl⟩
      | leftBrace => exact .inl ⟨.brace, rfl⟩
      | rightParen => exact .inr (.inl ⟨.parenthesis, rfl⟩)
      | rightBrace => exact .inr (.inl ⟨.brace, rfl⟩)
      | _ => exact .inr (.inr ⟨forall_not_mem_marked (by decide), rfl⟩)
    rcases hbrackets with ⟨b, rfl⟩ | ⟨b, rfl⟩ | ⟨hplain, hsame⟩
    · rw [Token.Kind.onBrackets_opening] at hkind
      cases hkind
      rw [Bracket.spelling_opening, List.singleton_append, scan_opening]
      cases b <;> rfl
    · rw [Token.Kind.onBrackets_closing] at hkind
      rw [Bracket.spelling_closing, List.singleton_append, scan_closing, hkind]
      cases b <;> rfl
    · rw [hsame] at hkind
      cases hkind
      exact scan_run hplain

end Lexeme

/-! ### The verdict on a text -/

section Texts

open Verdict

variable {opened left : List Bracket} {pos : Nat} {cs last : List Char} {c : Char}
  {tokens before after : List Token}

/-- Tokens whose brackets match are passed over, **with what they do to the brackets**. -/
theorem Munched.scan_eq (h : Munched pos cs tokens last)
    (hmatch : matchBrackets opened (tokens.map Token.kind) = some left) :
    ∃ stop, scan .code (opened.map Bracket.openingChar) pos cs =
      scan .code (left.map Bracket.openingChar) stop last := by
  induction h generalizing opened with
  | done =>
    cases hmatch
    exact ⟨_, rfl⟩
  | skip hlongest hskipped _ ih =>
    rw [Lexeme.scan_skipped hlongest hskipped]
    exact ih hmatch
  | take hlongest hdenotes _ ih =>
    rw [List.map_cons, matchBrackets_cons] at hmatch
    obtain ⟨next, hkind, hmatch⟩ := Option.bind_eq_some_iff.mp hmatch
    rw [Lexeme.scan_denoted hlongest hdenotes hkind]
    exact ih hmatch

/-- **The first wrong bracket is told**, at its own place. -/
theorem Munched.scan_eq_unmatched {t : Token} {b : Bracket} (h : Munched pos cs tokens last)
    (htokens : tokens = before ++ t :: after)
    (hmatch : matchBrackets opened (before.map Token.kind) = some left)
    (ht : t.kind = .mark b.closing) (hb : left.head? ≠ some b) :
    scan .code (opened.map Bracket.openingChar) pos cs =
      .unmatched b.closingChar t.span.start := by
  induction h generalizing before opened with
  | done => simp at htokens
  | skip hlongest hskipped _ ih =>
    rw [Lexeme.scan_skipped hlongest hskipped]
    exact ih htokens hmatch
  | @take pos text kind rest tokens last hlongest hdenotes _ ih =>
    cases before with
    | nil =>
      obtain ⟨rfl, rfl⟩ := List.cons.inj htokens
      cases hmatch
      obtain rfl : kind = .mark b.closing := ht
      cases hdenotes
      rw [Bracket.spelling_closing, List.singleton_append, scan_closing,
        Bracket.close_eq_none_iff.mpr hb]
    | cons u before =>
      obtain ⟨rfl, rfl⟩ := List.cons.inj htokens
      rw [List.map_cons, matchBrackets_cons] at hmatch
      obtain ⟨next, hkind, hmatch⟩ := Option.bind_eq_some_iff.mp hmatch
      rw [Lexeme.scan_denoted hlongest hdenotes hkind]
      exact ih rfl hmatch

/-- Behind all the text, **no bracket may be open**. -/
theorem Verdict.scan_nil (left : List Bracket) :
    scan .code (left.map Bracket.openingChar) pos [] =
      if left = [] then .complete else .incomplete := by
  cases left <;> rfl

/-- Where scanning stops at a string literal that is not closed, **the input goes on**. -/
theorem LexError.Concerns.scan_eq {e : LexError} {opened : List Char} {stop : Nat}
    (h : e.Concerns pos cs) (hcause : e.cause = .unclosedString) :
    scan .code opened stop cs = .incomplete := by
  cases h with
  | stray => cases hcause
  | @unclosed q cs text rest pos htext hlongest hrest hopen =>
    have hquote : scan .code opened stop (q.char :: cs) =
        scan (.literal q.char) opened (stop + q.char.utf8Size) cs := by
      cases q <;> rfl
    rw [hquote]
    refine scan_unclosed (Option.eq_none_iff_forall_ne_some.mpr fun value hvalue => ?_)
    -- a literal that is closed would denote its value
    have hcs := Lexeme.literal_text_append_rest q.char cs
    rcases hl : Lexeme.literal q.char cs with ⟨value?, read, more⟩
    rw [hl] at hvalue hcs
    obtain rfl : value? = some value := hvalue
    obtain ⟨spelled, hspelled, rfl⟩ := Lexeme.quoted_of_literal hl
    exact hopen _ _ ⟨more, by rw [← hcs]; simp⟩ (.text q hspelled)

/-- Either all brackets match, or there is **a first one that is wrong**. -/
theorem matched_or_firstUnmatched (tokens : List Token) :
    (∃ opened, matchBrackets [] (tokens.map Token.kind) = some opened) ∨
      ∃ c pos, FirstUnmatched tokens c pos := by
  refine (exists_matched_or_unmatched [] tokens).imp_right ?_
  rintro ⟨before, t, after, opened, b, hsplit, hmatch, ht, hb⟩
  exact ⟨_, _, before, t, after, opened, b, hsplit, hmatch, ht, hb, rfl, rfl⟩

/-- Behind a wrong bracket **nothing is matched** any more. -/
theorem FirstUnmatched.matchBrackets_eq_none (h : FirstUnmatched tokens c pos) :
    matchBrackets [] (tokens.map Token.kind) = none := by
  obtain ⟨before, t, after, opened, b, rfl, hmatch, ht, hb, -⟩ := h
  rw [List.map_append, List.map_cons, ht, matchBrackets_append, hmatch, Option.bind_some,
    matchBrackets_cons, Token.Kind.onBrackets_closing, Bracket.close_eq_none_iff.mpr hb]
  rfl

/-- A wrong bracket is told **exactly if there is one**, where it is told if there is one, and no
other is told. -/
theorem FirstUnmatched.iff_of_verdict {v : Verdict}
    (hmatched : ∀ opened, matchBrackets [] (tokens.map Token.kind) = some opened →
      ∀ c pos, v ≠ .unmatched c pos)
    (hunmatched : ∀ c pos, FirstUnmatched tokens c pos → v = .unmatched c pos) (c : Char)
    (pos : Nat) : v = .unmatched c pos ↔ FirstUnmatched tokens c pos := by
  refine ⟨fun hv => ?_, hunmatched c pos⟩
  rcases matched_or_firstUnmatched tokens with ⟨opened, h⟩ | ⟨c', pos', h⟩
  · exact absurd hv (hmatched opened h c pos)
  · cases hv.symm.trans (hunmatched c' pos' h)
    exact h

/-- **A verdict that tokens decide**: what they leave open, or the wrong bracket among them. -/
theorem Verdict.iff_of_tokens {v : Verdict}
    (hmatched : ∀ opened, matchBrackets [] (tokens.map Token.kind) = some opened →
      v = if opened = [] then .complete else .incomplete)
    (hunmatched : ∀ c pos, FirstUnmatched tokens c pos → v = .unmatched c pos) :
    (v = .complete ↔ matchBrackets [] (tokens.map Token.kind) = some []) ∧
      (v = .incomplete ↔
        ∃ b opened, matchBrackets [] (tokens.map Token.kind) = some (b :: opened)) ∧
      ∀ c pos, v = .unmatched c pos ↔ FirstUnmatched tokens c pos := by
  refine ⟨?_, ?_, FirstUnmatched.iff_of_verdict (fun opened h c pos => ?_) hunmatched⟩
  · rcases matched_or_firstUnmatched tokens with ⟨opened, h⟩ | ⟨c, pos, h⟩
    · rw [hmatched opened h, h]
      cases opened <;> simp
    · simp [hunmatched c pos h, h.matchBrackets_eq_none]
  · rcases matched_or_firstUnmatched tokens with ⟨opened, h⟩ | ⟨c, pos, h⟩
    · rw [hmatched opened h, h]
      cases opened <;> simp
    · simp [hunmatched c pos h, h.matchBrackets_eq_none]
  · rw [hmatched opened h]
    split <;> simp

theorem FirstUnmatched.ofInput_eq {source : String} (h : FirstUnmatched tokens c pos)
    (hmunched : Munched 0 source.toList tokens last) :
    Verdict.ofInput source = .unmatched c pos := by
  obtain ⟨before, t, after, opened, b, hsplit, hmatch, ht, hb, rfl, rfl⟩ := h
  exact hmunched.scan_eq_unmatched hsplit hmatch ht hb

/-- **The verdict on a text whose tokens match**: no bracket may be open. -/
theorem Munched.ofInput_eq {source : String} (h : Munched 0 source.toList tokens [])
    (hmatch : matchBrackets [] (tokens.map Token.kind) = some left) :
    Verdict.ofInput source = if left = [] then .complete else .incomplete := by
  obtain ⟨stop, hscan⟩ := h.scan_eq hmatch
  exact hscan.trans (scan_nil left)

/-- The mark of the end **is no bracket**. -/
theorem matchBrackets_endAt (tokens : List Token) (stop : Nat) :
    matchBrackets [] ((tokens ++ [Token.endAt stop]).map Token.kind) =
      matchBrackets [] (tokens.map Token.kind) := by
  rw [List.map_append, matchBrackets_append]
  exact Option.bind_fun_some _

theorem firstUnmatched_endAt {stop : Nat} :
    FirstUnmatched (tokens ++ [Token.endAt stop]) c pos ↔ FirstUnmatched tokens c pos := by
  constructor
  · rintro ⟨before, t, after, opened, b, hsplit, hmatch, ht, hb, hc, hpos⟩
    rcases List.eq_nil_or_concat after with rfl | ⟨after, last, rfl⟩
    · obtain ⟨-, hend⟩ := List.append_inj' hsplit rfl
      obtain rfl := List.singleton_injective hend
      cases ht
    · rw [List.concat_eq_append, ← List.cons_append, ← List.append_assoc] at hsplit
      exact ⟨before, t, after, opened, b, (List.append_inj' hsplit rfl).1, hmatch, ht, hb, hc, hpos⟩
  · rintro ⟨before, t, after, opened, b, rfl, h⟩
    exact ⟨before, t, after ++ [Token.endAt stop], opened, b, by simp, h⟩

/-- **The console sees the brackets that the scanner sees.** For a text that is a list of tokens,
the verdict is what comes out when the brackets among the tokens are matched with a stack: the input
is complete if all are matched, it goes on if only opening brackets remain, and otherwise the first
closing bracket that does not answer the innermost opening one is told, with the byte at which it
stands. If the text is none because a string literal in it is not closed, the input goes on, unless
a closing bracket before the literal is wrong, which is told then. -/
theorem verdict_eq_matching (source : String) :
    match tokenize source with
    | .ok tokens =>
      (Verdict.ofInput source = .complete ↔
        matchBrackets [] (tokens.map Token.kind) = some []) ∧
      (Verdict.ofInput source = .incomplete ↔
        ∃ b opened, matchBrackets [] (tokens.map Token.kind) = some (b :: opened)) ∧
      ∀ c pos, Verdict.ofInput source = .unmatched c pos ↔ FirstUnmatched tokens c pos
    | .error ⟨.unclosedString, span⟩ =>
      ∃ (front literal : String) (body : List Token), source = front ++ literal ∧
        span.start = front.utf8ByteSize ∧
        tokenize front = .ok (body ++ [Token.endAt front.utf8ByteSize]) ∧
        (∀ c pos, Verdict.ofInput source = .unmatched c pos ↔ FirstUnmatched body c pos) ∧
        ((¬ ∃ c pos, FirstUnmatched body c pos) → Verdict.ofInput source = .incomplete)
    | .error ⟨.strayCharacter _, _⟩ => True := by
  have hmunches := munches_tokensFrom 0 source.toList
  rw [← tokenize] at hmunches
  rcases htokens : tokenize source with ⟨⟨_ | c, span⟩⟩ | tokens
  · rw [htokens] at hmunches
    obtain ⟨front, rest, body, hsource, hmunched, hfront, hconcerns⟩ := hmunches
    obtain ⟨text, _, -, hspan⟩ := hconcerns.exists_text
    have hbytes : (String.ofList front).utf8ByteSize = 0 + byteLength front := by
      rw [← byteLength_toList, String.toList_ofList, Nat.zero_add]
    -- up to the literal the tokens decide, and at the literal the input goes on
    have hmatched : ∀ opened, matchBrackets [] (body.map Token.kind) = some opened →
        Verdict.ofInput source = .incomplete := fun opened hmatch => by
      obtain ⟨stop, hscan⟩ := hmunched.scan_eq hmatch
      exact hscan.trans (hconcerns.scan_eq rfl)
    refine ⟨String.ofList front, String.ofList rest, body, ?_, ?_, ?_, fun c pos => ?_, ?_⟩
    · rw [← String.ofList_append, ← hsource, String.ofList_toList]
    · rw [hbytes]
      exact congrArg Span.start hspan
    · rw [tokenize, String.toList_ofList, hbytes, hfront]
    · refine FirstUnmatched.iff_of_verdict (fun opened h c pos => ?_)
        (fun c pos h => h.ofInput_eq hmunched) c pos
      rw [hmatched opened h]
      simp
    · intro hnone
      obtain ⟨opened, h⟩ := (matched_or_firstUnmatched body).resolve_right hnone
      exact hmatched opened h
  · trivial
  · rw [htokens] at hmunches
    obtain ⟨body, rfl, hmunched⟩ := hmunches
    refine Verdict.iff_of_tokens (fun opened h => ?_) fun c pos h => ?_
    · exact hmunched.ofInput_eq (matchBrackets_endAt body _ ▸ h)
    · exact (firstUnmatched_endAt.mp h).ofInput_eq hmunched

end Texts

end ScopeScript
