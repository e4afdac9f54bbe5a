import ScopeScript.Token.Scan
import Mathlib.Data.List.TakeWhile

/-!
# Scanning a part of a text

The scanner never looks back, and the end of a lexeme is settled by the lexeme and by the character
behind it. So the tokens from one place to another **depend on the text between these places only**:
what stands before the first of them and behind the last may be cut away.

The tokens of a text are described by rules first, one for each thing that may stand at the front.
Everything else is by induction on these rules: cutting away the front of a text
(`ScopeScript.Scanned.drop`), cutting away its back (`ScopeScript.Scanned.take`), moving it to
another place (`ScopeScript.Scanned.back`), and the order in which its tokens stand
(`ScopeScript.Scanned.consecutive`).
-/

namespace ScopeScript

/-! ### The rules of scanning -/

/-- **What a text is scanned into**, where it stands from byte `pos` on. -/
inductive Scanned : Nat → List Char → List Token → Prop
  /-- Behind the text stands the mark of its end. -/
  | nil {pos} : Scanned pos [] [⟨.endOfInput, ⟨pos, pos⟩⟩]
  /-- White space or a comment is skipped. -/
  | blank {pos c cs text rest tokens} (hcut : Lexeme.first c cs = ⟨.blank, text, rest⟩)
    (h : Scanned (pos + byteLength text) rest tokens) : Scanned pos (c :: cs) tokens
  /-- A token takes its text. -/
  | token {pos c cs kind text rest tokens} (hcut : Lexeme.first c cs = ⟨.token kind, text, rest⟩)
    (h : Scanned (pos + byteLength text) rest tokens) :
    Scanned pos (c :: cs) (⟨kind, ⟨pos, pos + byteLength text⟩⟩ :: tokens)

/-- The scanner **succeeds exactly by the rules**. -/
theorem tokensFrom_eq_ok_iff {pos : Nat} {cs : List Char} {tokens : List Token} :
    tokensFrom pos cs = .ok tokens ↔ Scanned pos cs tokens := by
  constructor
  · intro h
    fun_induction tokensFrom pos cs generalizing tokens with
    | case1 pos =>
      cases h
      exact .nil
    | case2 pos c cs cut stop hblank =>
      rename_i ih
      have hcut : Lexeme.first c cs = ⟨.blank, cut.text, cut.rest⟩ := by rw [← hblank]
      exact .blank hcut (ih h)
    | case3 pos c cs cut stop kind hkind tokens' htokens =>
      rename_i ih
      cases h
      have hcut : Lexeme.first c cs = ⟨.token kind, cut.text, cut.rest⟩ := by rw [← hkind]
      exact .token hcut (ih htokens)
    | case4 | case5 | case6 => contradiction
  · intro h
    induction h with
    | nil => rw [tokensFrom]
    | blank hcut _ ih =>
      rw [tokensFrom, hcut]
      exact ih
    | token hcut _ ih =>
      rw [tokensFrom, hcut]
      simp only [ih]

theorem tokenize_ofList_eq_ok_iff {cs : List Char} {tokens : List Token} :
    tokenize (String.ofList cs) = .ok tokens ↔ Scanned 0 cs tokens := by
  rw [tokenize, String.toList_ofList, tokensFrom_eq_ok_iff]

/-! ### A lexeme without the text behind it -/

namespace Lexeme

variable {c : Char} {cs text rest post : List Char} {lexeme : Lexeme}

/-- Where the characters of a class end, they end **also if less text follows**. -/
theorem run_truncate {p : Char → Bool} {make : List Char → Lexeme}
    (h : run p c cs make = ⟨lexeme, text, rest ++ post⟩) :
    cs = cs.takeWhile p ++ rest ++ post ∧
      run p c (cs.takeWhile p ++ rest) make = ⟨lexeme, text, rest⟩ := by
  simp only [run, Cut.mk.injEq] at h
  obtain ⟨rfl, rfl, hrest⟩ := h
  have hall : ∀ d ∈ cs.takeWhile p, p d := fun d => List.mem_takeWhile_imp
  -- the text behind begins with what ended the class in the longer text
  have hstop : rest.takeWhile p = [] ∧ rest.dropWhile p = rest := by
    cases rest with
    | nil => exact ⟨rfl, rfl⟩
    | cons d rest =>
      have hd : ¬ p d := by
        have := List.head_dropWhile_not p (l := cs) (by simp [hrest])
        simpa [hrest] using this
      simp [hd]
  constructor
  · rw [List.append_assoc, ← hrest, List.takeWhile_append_dropWhile]
  · rw [run, List.takeWhile_append_of_pos hall, List.dropWhile_append_of_pos hall, hstop.1, hstop.2,
      List.append_nil]

/-- A character other than a backslash **stands for itself**, unless it is the quote. -/
theorem literal_cons {quote : Char} (hc : c ≠ '\\') : literal quote (c :: cs) =
    if c = quote then ⟨some [], [c], cs⟩ else (literal quote cs).push [c] c := by
  rw [literal.eq_4]
  all_goals simp [hc]

/-- What is pushed in front of a literal comes in front of its text and of its value. -/
theorem push_eq_iff {l : Literal} {spelled value : List Char} {denoted : Char} :
    l.push spelled denoted = ⟨some value, text, rest⟩ ↔
      ∃ value' text', l = ⟨some value', text', rest⟩ ∧ denoted :: value' = value ∧
        spelled ++ text' = text := by
  obtain ⟨_ | value', text', rest'⟩ := l
  · simp [Literal.push]
  · simp only [Literal.push, Option.map_some, Literal.mk.injEq, Option.some.injEq]
    grind

/-- A string literal that is closed is closed **whatever follows**. -/
theorem literal_truncate {quote : Char} {value : List Char}
    (h : literal quote cs = ⟨some value, text, rest ++ post⟩) :
    ∃ ds, cs = ds ++ post ∧ literal quote ds = ⟨some value, text, rest⟩ := by
  fun_induction literal quote cs generalizing value text with
  | case1 | case2 => cases h
  | case3 d cs ih =>
    obtain ⟨value', text', hl, rfl, rfl⟩ := push_eq_iff.mp h
    obtain ⟨ds, rfl, hds⟩ := ih hl
    exact ⟨'\\' :: d :: ds, rfl, by rw [literal, push_eq_iff]; exact ⟨_, _, hds, rfl, rfl⟩⟩
  | case4 cs hnil hcons =>
    cases h
    have hquote : quote ≠ '\\' := fun hq => by
      cases hcs : rest ++ post with
      | nil => exact hnil hq hcs
      | cons d ds => exact hcons d ds hq hcs
    exact ⟨quote :: rest, rfl, by rw [literal_cons hquote, if_pos rfl]⟩
  | case5 d cs hnil hcons hne ih =>
    have hd : d ≠ '\\' := fun hd => by
      cases hcs : cs with
      | nil => exact hnil hd hcs
      | cons d' ds => exact hcons d' ds hd hcs
    obtain ⟨value', text', hl, rfl, rfl⟩ := push_eq_iff.mp h
    obtain ⟨ds, rfl, hds⟩ := ih hl
    exact ⟨d :: ds, rfl, by
      rw [literal_cons hd, if_neg hne, push_eq_iff]
      exact ⟨_, _, hds, rfl, rfl⟩⟩

/-- A quoted text is cut at the quote that closes it, **whatever follows**. -/
theorem quotedCut_truncate (h : quotedCut c cs = ⟨lexeme, text, rest ++ post⟩)
    (hclosed : lexeme ≠ .unclosed) :
    ∃ ds, cs = ds ++ post ∧ quotedCut c ds = ⟨lexeme, text, rest⟩ := by
  rcases hl : literal c cs with ⟨_ | value, text', rest'⟩
  · simp only [quotedCut, hl, Cut.mk.injEq] at h
    exact absurd h.1.symm hclosed
  · simp only [quotedCut, hl, Cut.mk.injEq] at h
    obtain ⟨rfl, rfl, rfl⟩ := h
    obtain ⟨ds, hcs, hds⟩ := literal_truncate hl
    exact ⟨ds, hcs, by simp only [quotedCut, hds]⟩

/-- A sign is found **in front of less text** too: no longer sign is there either. -/
theorem signCut_truncate (h : signCut c cs = ⟨lexeme, text, rest ++ post⟩) :
    ∃ ds, cs = ds ++ post ∧ signCut c ds = ⟨lexeme, text, rest⟩ := by
  obtain ⟨htext, hne⟩ := signCut_text_append_rest c cs
  simp only [h] at htext hne
  obtain ⟨d, more, rfl⟩ := List.exists_cons_of_ne_nil hne
  obtain ⟨rfl, rfl⟩ := List.cons.inj htext
  refine ⟨more ++ rest, (List.append_assoc ..).symm, ?_⟩
  -- a sign in front of the shorter text is in front of the longer one
  have hlonger : ∀ s : List Char × Token.Kind, s.1.isPrefixOf (d :: (more ++ rest)) →
      s.1.isPrefixOf (d :: (more.append (rest ++ post))) := fun s hs => by
    rw [List.isPrefixOf_iff_prefix] at hs ⊢
    exact hs.trans ⟨post, by simp⟩
  unfold signCut at h
  split at h
  · next sign kind hfind =>
    simp only [Cut.mk.injEq] at h
    obtain ⟨rfl, rfl, -⟩ := h
    obtain ⟨-, before, after, hsigns, hbefore⟩ := List.find?_eq_some_iff_append.mp hfind
    have hfind' : signs.find? (fun s => s.1.isPrefixOf (d :: (more ++ rest))) =
        some (d :: more, kind) :=
      List.find?_eq_some_iff_append.mpr ⟨by simp, before, after, hsigns, fun s hs => by
        have hnot := hbefore s hs
        rw [Bool.not_eq_true', Bool.eq_false_iff] at hnot ⊢
        exact mt (hlonger s) hnot⟩
    rw [signCut, hfind']
    simp
  · next hfind =>
    simp only [Cut.mk.injEq, List.cons.injEq, true_and] at h
    obtain ⟨rfl, rfl, -⟩ := h
    have hfind' : signs.find? (fun s => s.1.isPrefixOf (d :: ([] ++ rest))) = none :=
      List.find?_eq_none.mpr fun s hs => mt (hlonger s) (List.find?_eq_none.mp hfind s hs)
    rw [signCut, hfind']
    rfl

/-- **What follows a lexeme does not matter** to it, but for the character right behind it. -/
theorem first_truncate (h : first c cs = ⟨lexeme, text, rest ++ post⟩)
    (hclosed : lexeme ≠ .unclosed) :
    ∃ ds, cs = ds ++ post ∧ first c ds = ⟨lexeme, text, rest⟩ := by
  by_cases hblank : isBlank c
  · simp only [first, if_pos hblank, Cut.mk.injEq] at h ⊢
    exact ⟨rest, h.2.2, h.1, h.2.1, rfl⟩
  by_cases hword : beginsWord c
  · simp only [first, if_neg hblank, if_pos hword] at h ⊢
    exact ⟨_, run_truncate h⟩
  by_cases hnumeral : c.isDigit
  · simp only [first, if_neg hblank, if_neg hword, if_pos hnumeral] at h ⊢
    exact ⟨_, run_truncate h⟩
  by_cases hquote : isQuote c
  · simp only [first, if_neg hblank, if_neg hword, if_neg hnumeral, if_pos hquote] at h ⊢
    exact quotedCut_truncate h hclosed
  simp only [first, if_neg hblank, if_neg hword, if_neg hnumeral, if_neg hquote] at h ⊢
  split at h
  · next hcomment =>
    obtain ⟨hcs, hds⟩ := run_truncate h
    -- the second stroke belongs to the comment, so it is not cut away
    have hhead : (cs.takeWhile (· ≠ '\n') ++ rest).head? = some '/' := by
      obtain ⟨ds, rfl⟩ := List.head?_eq_some_iff.mp hcomment.2
      simp
    exact ⟨_, hcs, by rw [if_pos ⟨hcomment.1, hhead⟩, hds]⟩
  · next hcomment =>
    obtain ⟨ds, rfl, hds⟩ := signCut_truncate h
    refine ⟨ds, rfl, ?_⟩
    rw [if_neg (fun hc => hcomment ⟨hc.1, ?_⟩), hds]
    cases ds with
    | nil => exact absurd hc.2 nofun
    | cons d ds => exact hc.2

/-- The lexeme and what follows it **make up the text**. -/
theorem text_append_of_first (h : first c cs = ⟨lexeme, text, rest⟩) : text ++ rest = c :: cs := by
  simpa only [h] using (first_text_append_rest c cs).1

theorem byteLength_of_first (h : first c cs = ⟨lexeme, text, rest⟩) :
    byteLength (c :: cs) = byteLength text + byteLength rest := by
  rw [← text_append_of_first h, byteLength_append]

/-- A word is no mark of the end. -/
theorem wordKind_ne_endOfInput (word : List Char) : wordKind word ≠ .endOfInput := by
  unfold wordKind
  split <;> nofun

/-- The mark of the end is **not spelled** in the text. -/
theorem first_ne_endOfInput : (first c cs).lexeme ≠ .token .endOfInput := by
  unfold first
  split
  · rintro ⟨⟩
  split
  · exact fun h => wordKind_ne_endOfInput _ (token.inj h)
  split
  · rintro ⟨⟩
  split
  · simp only [quotedCut]
    split <;> rintro ⟨⟩
  split
  · rintro ⟨⟩
  · unfold signCut
    split
    · next sign kind hfind =>
      have hkind : ∀ s ∈ signs, s.2 ≠ .endOfInput := by simp [signs]
      exact fun h => hkind _ (List.mem_of_find?_eq_some hfind) (token.inj h)
    · rintro ⟨⟩

end Lexeme

/-! ### Parts of a text -/

/-- The span that lies so many bytes **further on**. -/
def Span.forth (a : Nat) (s : Span) : Span :=
  ⟨s.start + a, s.stop + a⟩

/-- The span that lies so many bytes **further back**. -/
def Span.back (a : Nat) (s : Span) : Span :=
  ⟨s.start - a, s.stop - a⟩

/-- The same token in **another place**. -/
def Token.mapSpan (f : Span → Span) (t : Token) : Token :=
  ⟨t.kind, f t.span⟩

/-- Tokens that stand **one behind the other**. -/
structure Consecutive (tokens : List Token) : Prop where
  /-- No token ends before it begins. -/
  start_le_stop : ∀ t ∈ tokens, t.span.start ≤ t.span.stop
  /-- A token ends before the later ones begin. -/
  stop_le_start : tokens.Pairwise fun t u => t.span.stop ≤ u.span.start

theorem Consecutive.sublist {tokens part : List Token} (h : Consecutive tokens)
    (hpart : part.Sublist tokens) : Consecutive part :=
  ⟨fun t ht => h.start_le_stop t (hpart.subset ht), h.stop_le_start.sublist hpart⟩

namespace Scanned

variable {pos : Nat} {cs : List Char} {tokens before after : List Token} {t u : Token}

theorem eq_of_nil (h : Scanned pos [] tokens) : tokens = [⟨.endOfInput, ⟨pos, pos⟩⟩] := by
  cases h
  rfl

/-- A text is scanned **from a later byte on**. -/
def Later (pos : Nat) (cs : List Char) (start : Nat) (tokens : List Token) : Prop :=
  ∃ front back, cs = front ++ back ∧ start = pos + byteLength front ∧ Scanned start back tokens

theorem Later.of_rest {text rest : List Char} {start : Nat}
    (h : Later (pos + byteLength text) rest start tokens) :
    Later pos (text ++ rest) start tokens := by
  obtain ⟨front, back, rfl, rfl, h⟩ := h
  refine ⟨text ++ front, back, (List.append_assoc ..).symm, ?_, h⟩
  rw [byteLength_append, Nat.add_assoc]

/-- The tokens from one of them on are those of the text **from its first byte on**. -/
theorem drop (h : Scanned pos cs (before ++ t :: after)) :
    Later pos cs t.span.start (t :: after) := by
  generalize htokens : before ++ t :: after = tokens at h
  induction h generalizing before with
  | nil =>
    obtain ⟨rfl, rfl, rfl⟩ | ⟨_, h⟩ := List.append_eq_singleton_iff.mp htokens
    · exact ⟨[], [], rfl, rfl, .nil⟩
    · contradiction
  | blank hcut _ ih =>
    rw [← Lexeme.text_append_of_first hcut]
    exact (ih htokens).of_rest
  | @token pos c cs kind text rest tokens hcut h ih =>
    cases before with
    | nil =>
      obtain ⟨rfl, rfl⟩ := List.cons.inj htokens
      exact ⟨[], c :: cs, rfl, rfl, .token hcut h⟩
    | cons first before =>
      rw [← Lexeme.text_append_of_first hcut]
      exact (ih (List.cons.inj htokens).2).of_rest

/-- The tokens up to one of them are those of the text **up to its last byte**, where the end of the
input is marked. -/
theorem take (h : Scanned pos cs (before ++ t :: u :: after)) :
    ∃ front back, cs = front ++ back ∧ t.span.stop = pos + byteLength front ∧
      Scanned pos front (before ++ [t, ⟨.endOfInput, ⟨t.span.stop, t.span.stop⟩⟩]) := by
  generalize htokens : before ++ t :: u :: after = tokens at h
  induction h generalizing before with
  | nil =>
    have hlength := congrArg List.length htokens
    simp only [List.length_append, List.length_cons, List.length_nil] at hlength
    omega
  | @blank pos c cs text rest tokens hcut _ ih =>
    obtain ⟨front, back, rfl, hstop, hfront⟩ := ih htokens
    obtain ⟨ds, rfl, hds⟩ := Lexeme.first_truncate hcut nofun
    refine ⟨c :: ds, back, rfl, ?_, .blank hds hfront⟩
    rw [hstop, Lexeme.byteLength_of_first hds, Nat.add_assoc]
  | @token pos c cs kind text rest tokens hcut h ih =>
    cases before with
    | nil =>
      obtain ⟨rfl, -⟩ := List.cons.inj htokens
      have hall : Lexeme.first c cs = ⟨.token kind, text, [] ++ rest⟩ := hcut
      obtain ⟨ds, rfl, hds⟩ := Lexeme.first_truncate hall nofun
      refine ⟨c :: ds, rest, rfl, ?_, .token hds .nil⟩
      rw [Lexeme.byteLength_of_first hds, byteLength_nil, Nat.add_zero]
    | cons first before =>
      obtain ⟨rfl, htail⟩ := List.cons.inj htokens
      obtain ⟨front, back, rfl, hstop, hfront⟩ := ih htail
      obtain ⟨ds, rfl, hds⟩ := Lexeme.first_truncate hcut nofun
      refine ⟨c :: ds, back, rfl, ?_, .token hds hfront⟩
      rw [hstop, Lexeme.byteLength_of_first hds, Nat.add_assoc]

/-- A text that stands elsewhere has the same tokens, **moved with it**. -/
theorem back {a : Nat} (h : Scanned (pos + a) cs tokens) :
    Scanned pos cs (tokens.map (Token.mapSpan (Span.back a))) := by
  generalize hplace : pos + a = place at h
  have hback : pos = place - a := by omega
  induction h generalizing pos with
  | nil =>
    subst hback
    exact .nil
  | @blank place c cs text rest tokens hcut _ ih =>
    exact .blank hcut (ih (by omega) (by omega))
  | @token place c cs kind text rest tokens hcut _ ih =>
    have hspan : Span.back a ⟨place, place + byteLength text⟩ = ⟨pos, pos + byteLength text⟩ := by
      simp only [Span.back, Span.mk.injEq]
      omega
    rw [List.map_cons, Token.mapSpan, hspan]
    exact .token hcut (ih (by omega) (by omega))

/-- The tokens of a text stand **one behind the other** in it. -/
theorem consecutive (h : Scanned pos cs tokens) :
    Consecutive tokens ∧ ∀ t ∈ tokens, pos ≤ t.span.start := by
  induction h with
  | nil => exact ⟨⟨by simp, List.pairwise_singleton ..⟩, by simp⟩
  | blank _ _ ih => exact ⟨ih.1, fun t ht => Nat.le_of_add_right_le (ih.2 t ht)⟩
  | token _ _ ih =>
    obtain ⟨⟨hle, hapart⟩, hpos⟩ := ih
    refine ⟨⟨?_, hapart.cons fun u hu => hpos u hu⟩, ?_⟩
    · exact List.forall_mem_cons.mpr ⟨Nat.le_add_right .., hle⟩
    · exact List.forall_mem_cons.mpr ⟨Nat.le_refl _, fun t ht => Nat.le_of_add_right_le (hpos t ht)⟩

/-- The mark of the end is the last token, **and no other**. -/
theorem exists_body (h : Scanned pos cs tokens) :
    ∃ body stop, tokens = body ++ [⟨.endOfInput, ⟨stop, stop⟩⟩] ∧
      ∀ t ∈ body, t.kind ≠ .endOfInput := by
  induction h with
  | nil => exact ⟨[], _, rfl, nofun⟩
  | blank _ _ ih => exact ih
  | @token pos c cs kind text rest tokens hcut _ ih =>
    obtain ⟨body, stop, rfl, hbody⟩ := ih
    refine ⟨_ :: body, stop, rfl, List.forall_mem_cons.mpr ⟨?_, hbody⟩⟩
    rintro rfl
    exact Lexeme.first_ne_endOfInput (congrArg Lexeme.Cut.lexeme hcut)

end Scanned

end ScopeScript
