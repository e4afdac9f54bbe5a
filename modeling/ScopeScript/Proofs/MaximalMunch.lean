import ScopeScript.Proofs.FirstLexeme
import ScopeScript.Proofs.NodeText

/-!
# Maximal munch

**The scanner cuts a text up by maximal munch and loses nothing** (`ScopeScript.tokenize_munched`).
Every lexeme that it cuts off is the longest that any pattern has at its place, and is skipped or
becomes the token that it denotes. The scanner stops at the first place where no lexeme fits, and
the text before that place is cut into the same tokens when it stands alone.

What one lexeme does to the scan is a step (`ScopeScript.Steps`): the text is scanned as its rest
is, with one token more or none. A step does not depend on how far the rest goes, and this is why
the text before an error can stand alone. The argument goes over the steps, a run of white space
being one of them.
-/

namespace ScopeScript

variable {pos : Nat} {cs text rest last : List Char} {tokens add : List Token}

/-! ### Steps of the scanner -/

/-- The scanner passes over `text` and **adds tokens** to those of what follows, however much of the
rest that is. -/
def Steps (pos : Nat) (text rest : List Char) (add : List Token) : Prop :=
  ∀ front back, rest = front ++ back →
    tokensFrom pos (text ++ front) = (tokensFrom (pos + byteLength text) front).map (add ++ ·)

/-- White space is passed over **character by character**. -/
theorem tokensFrom_blanks (h : ∀ c ∈ text, Lexeme.isBlank c) :
    tokensFrom pos (text ++ rest) = tokensFrom (pos + byteLength text) rest := by
  induction text generalizing pos with
  | nil => rfl
  | cons c text ih =>
    obtain ⟨hc, htext⟩ := List.forall_mem_cons.mp h
    have hcut : Lexeme.first c (text ++ rest) = ⟨.blank, [c], text ++ rest⟩ := by
      rw [Lexeme.first, if_pos hc]
    rw [List.cons_append, tokensFrom, hcut]
    simp only [ih htext, byteLength_cons, byteLength_nil, Nat.add_zero, Nat.add_assoc]

theorem Steps.of_blanks (h : ∀ c ∈ text, Lexeme.isBlank c) : Steps pos text rest [] := by
  intro front back _
  rw [tokensFrom_blanks h]
  cases tokensFrom (pos + byteLength text) front <;> rfl

/-- A lexeme that is no token is **one step**. -/
theorem Steps.of_blank {c : Char} (hcut : Lexeme.first c cs = ⟨.blank, text, rest⟩) :
    Steps pos text rest [] := by
  rintro front back rfl
  obtain ⟨ds, rfl, hds⟩ := Lexeme.first_truncate hcut nofun
  rw [Lexeme.text_append_of_first hds, tokensFrom, hds]
  cases tokensFrom (pos + byteLength text) front <;> rfl

/-- A token is **one step**. -/
theorem Steps.of_token {c : Char} {kind : Token.Kind}
    (hcut : Lexeme.first c cs = ⟨.token kind, text, rest⟩) :
    Steps pos text rest [⟨kind, ⟨pos, pos + byteLength text⟩⟩] := by
  rintro front back rfl
  obtain ⟨ds, rfl, hds⟩ := Lexeme.first_truncate hcut nofun
  rw [Lexeme.text_append_of_first hds, tokensFrom, hds]
  simp only
  cases tokensFrom (pos + byteLength text) front <;> rfl

/-! ### What scanning comes to -/

/-- The **mark of the end** at a byte. -/
def Token.endAt (pos : Nat) : Token :=
  ⟨.endOfInput, ⟨pos, pos⟩⟩

/-- **What the scanner makes of a text**, by maximal munch: the tokens of all the text, or those up
to a place that the error concerns. -/
def Munches (pos : Nat) (cs : List Char) : Except LexError (List Token) → Prop
  | .ok tokens =>
    ∃ body, tokens = body ++ [Token.endAt (pos + byteLength cs)] ∧ Munched pos cs body []
  | .error e =>
    ∃ front rest body, cs = front ++ rest ∧ Munched pos cs body rest ∧
      tokensFrom pos front = .ok (body ++ [Token.endAt (pos + byteLength front)]) ∧
      e.Concerns (pos + byteLength front) rest

/-- A step before a scan by maximal munch **gives such a scan**. -/
theorem Munches.step (hstep : Steps pos text rest add)
    (hmunch : ∀ tokens last, Munched (pos + byteLength text) rest tokens last →
      Munched pos (text ++ rest) (add ++ tokens) last)
    (h : Munches (pos + byteLength text) rest (tokensFrom (pos + byteLength text) rest)) :
    Munches pos (text ++ rest) (tokensFrom pos (text ++ rest)) := by
  rw [hstep rest [] (List.append_nil rest).symm]
  cases hrest : tokensFrom (pos + byteLength text) rest with
  | ok tokens =>
    rw [hrest] at h
    obtain ⟨body, rfl, hbody⟩ := h
    refine ⟨add ++ body, ?_, hmunch body [] hbody⟩
    rw [byteLength_append, Nat.add_assoc, List.append_assoc]
  | error e =>
    rw [hrest] at h
    obtain ⟨front, back, body, rfl, hbody, hfront, hconcerns⟩ := h
    rw [Nat.add_assoc, ← byteLength_append] at hfront hconcerns
    refine ⟨text ++ front, back, add ++ body, (List.append_assoc ..).symm, hmunch body back hbody,
      ?_, hconcerns⟩
    rw [hstep front back rfl, hfront, List.append_assoc]
    rfl

/-- Where the scanner stops at once, **the error concerns the text**. -/
theorem Munches.of_concerns {e : LexError} (h : e.Concerns pos cs) : Munches pos cs (.error e) :=
  ⟨[], cs, [], rfl, .done, by rw [tokensFrom]; rfl, h⟩

/-- **The scanner goes by maximal munch.** -/
theorem munches_tokensFrom (pos : Nat) (cs : List Char) : Munches pos cs (tokensFrom pos cs) := by
  cases cs with
  | nil =>
    rw [tokensFrom]
    exact ⟨[], rfl, .done⟩
  | cons c cs =>
    by_cases hspace : IsSpace c
    · obtain ⟨hmatched, hlongest⟩ := Lexeme.longest_space cs hspace
      have hblanks : ∀ d ∈ c :: cs.takeWhile Lexeme.isBlank, Lexeme.isBlank d :=
        List.forall_mem_cons.mpr ⟨Lexeme.isBlank_iff.mpr hspace, fun d => List.mem_takeWhile_imp⟩
      have hlength := (cs.dropWhile_sublist Lexeme.isBlank).length_le
      have hmunches := Munches.step (.of_blanks hblanks)
        (fun tokens last => .skip hlongest (.inl hmatched))
        (munches_tokensFrom (pos + byteLength (c :: cs.takeWhile Lexeme.isBlank))
          (cs.dropWhile Lexeme.isBlank))
      rwa [List.cons_append, List.takeWhile_append_dropWhile] at hmunches
    · rcases hcut : Lexeme.first c cs with ⟨lexeme, text, rest⟩
      have hspec := Lexeme.first_spec hspace hcut
      have htext := Lexeme.text_append_of_first hcut
      have hlength := Lexeme.length_first_rest c cs
      rw [hcut] at hlength
      cases lexeme with
      | blank =>
        have hmunches := Munches.step (.of_blank hcut) (fun _ _ => .skip hspec.1 hspec.2)
          (munches_tokensFrom (pos + byteLength text) rest)
        rwa [htext] at hmunches
      | token kind =>
        have hmunches := Munches.step (.of_token hcut) (fun _ _ => .take hspec.1 hspec.2)
          (munches_tokensFrom (pos + byteLength text) rest)
        rwa [htext] at hmunches
      | unclosed | stray =>
        rw [tokensFrom, hcut]
        exact .of_concerns (hspec pos)
termination_by cs.length
decreasing_by
  · exact Nat.lt_succ_of_le hlength
  · exact hlength
  · exact hlength

/-! ### Places -/

/-- A token that is taken from a text has **a text of its own** there, the longest lexeme at its
place, and is what this lexeme denotes. -/
theorem Munched.exists_text (h : Munched pos cs tokens last) {t : Token} (ht : t ∈ tokens) :
    ∃ before text after, cs = before ++ text ++ after ∧
      t.span = ⟨pos + byteLength before, pos + byteLength before + byteLength text⟩ ∧
      Lexeme.Longest text after ∧ Lexeme.Denotes text t.kind := by
  induction h with
  | done => cases ht
  | @skip pos text rest tokens last _ _ _ ih =>
    obtain ⟨before, text', after, rfl, hspan, hlexeme⟩ := ih ht
    refine ⟨text ++ before, text', after, by simp, ?_, hlexeme⟩
    rw [hspan, byteLength_append, Nat.add_assoc pos]
  | @take pos text kind rest tokens last hlongest hdenotes _ ih =>
    rcases List.mem_cons.mp ht with rfl | ht
    · exact ⟨[], text, rest, rfl, rfl, hlongest, hdenotes⟩
    · obtain ⟨before, text', after, rfl, hspan, hlexeme⟩ := ih ht
      refine ⟨text ++ before, text', after, by simp, ?_, hlexeme⟩
      rw [hspan, byteLength_append, Nat.add_assoc pos]

/-- A span between two places of a text **cuts a text out** of it. -/
theorem Span.cuts_of_append {source : String} {before text after : List Char}
    (h : source.toList = before ++ text ++ after) :
    Span.Cuts ⟨byteLength before, byteLength before + byteLength text⟩ source
      (String.ofList text) := by
  refine ⟨String.ofList before, String.ofList after, ?_, ?_⟩
  · rw [← String.ofList_append, ← String.ofList_append, ← h, String.ofList_toList]
  · rw [← byteLength_toList, ← byteLength_toList, String.toList_ofList, String.toList_ofList]

/-- A literal denotes a text, **and nothing else**. -/
theorem Lexeme.Denotes.exists_text {q : Quote} {kind : Token.Kind}
    (h : Lexeme.Denotes (q.char :: cs) kind) : ∃ value, kind = .text value := by
  have hfamily : Lexeme.family q.char = .literal := by cases q <;> decide
  obtain ⟨_, _, ⟨⟩, hcut⟩ := h.first_eq
  rw [Lexeme.first_eq, hfamily] at hcut
  simp only [Lexeme.quotedCut] at hcut
  split at hcut
  · simp only [Lexeme.Cut.mk.injEq, Lexeme.token.injEq] at hcut
    exact ⟨_, hcut.1.symm⟩
  · cases hcut

namespace LexError.Concerns

variable {e : LexError}

/-- An error begins **where the scanner stopped**, and has a text of its own there. -/
theorem exists_text (h : e.Concerns pos cs) :
    ∃ text rest, cs = text ++ rest ∧ e.span = ⟨pos, pos + byteLength text⟩ := by
  cases h with
  | @stray c cs => exact ⟨[c], cs, rfl, by simp⟩
  | unclosed htext => exact ⟨_, _, htext, rfl⟩

/-- Where an error concerns the text, **no lexeme fits**. -/
theorem not_fits (h : e.Concerns pos cs) : ¬ Lexeme.Fits cs := by
  rintro ⟨text, rest, hcs, hlongest, hfits⟩
  obtain ⟨p, hp⟩ := hlongest.matched
  cases h with
  | stray hnone => exact hnone p text hp ⟨rest, hcs.symm⟩
  | @unclosed q cs _ _ _ _ _ _ hopen =>
    have hfamily : Lexeme.family q.char = .literal := by cases q <;> decide
    obtain ⟨c, more, rfl⟩ := List.exists_cons_of_ne_nil (Pattern.ne_nil_of_mem hp)
    obtain ⟨rfl, rfl⟩ := List.cons.inj hcs
    rcases hfits with (hskipped | hskipped) | ⟨kind, hdenotes⟩
    · have := hfamily.symm.trans (Pattern.family_of_mem hskipped)
      cases this
    · have := hfamily.symm.trans (Pattern.family_of_mem hskipped)
      cases this
    · obtain ⟨value, rfl⟩ := hdenotes.exists_text
      exact hopen _ value ⟨rest, rfl⟩ hdenotes

end LexError.Concerns

/-- A token of a source **is what a text denotes** that its span cuts out, or else it is the mark of
the end. -/
theorem Scanned.exists_cuts_or_eq {source : String} {tokens : List Token}
    (h : Scanned 0 source.toList tokens) {t : Token} (ht : t ∈ tokens) :
    (∃ text, t.span.Cuts source text ∧ Lexeme.Denotes text.toList t.kind) ∨
      t = Token.endAt source.utf8ByteSize := by
  have hmunches := munches_tokensFrom 0 source.toList
  rw [tokensFrom_eq_ok_iff.mpr h] at hmunches
  obtain ⟨body, rfl, hmunched⟩ := hmunches
  rcases List.mem_append.mp ht with ht | ht
  · obtain ⟨before, text, after, hsource, hspan, -, hdenotes⟩ := hmunched.exists_text ht
    rw [Nat.zero_add] at hspan
    refine .inl ⟨String.ofList text, hspan ▸ Span.cuts_of_append hsource, ?_⟩
    rwa [String.toList_ofList]
  · rw [Nat.zero_add, byteLength_toList] at ht
    exact .inr (List.mem_singleton.mp ht)

/-- The span of an error of the scanner **cuts a text out** of the source. -/
theorem LexError.exists_cuts {source : String} {e : LexError} (h : tokenize source = .error e) :
    ∃ text, e.span.Cuts source text := by
  have hmunches := munches_tokensFrom 0 source.toList
  rw [← tokenize, h] at hmunches
  obtain ⟨front, back, _, hsource, _, _, hconcerns⟩ := hmunches
  obtain ⟨text, rest, rfl, hspan⟩ := hconcerns.exists_text
  rw [← List.append_assoc] at hsource
  rw [hspan, Nat.zero_add]
  exact ⟨_, Span.cuts_of_append hsource⟩

/-- **Tokenization is maximal munch and loses nothing.** When a source is a list of tokens, the list
closes with one mark of the end, at the end of the source. The tokens before it stand in order and
apart from one another, none of them is empty, and each is what the longest lexeme at its place
denotes; between them there are only white space and comments. When it is none, the error concerns
the first place where no lexeme fits, and the text before that place has the tokens that were taken
from it. -/
theorem tokenize_munched (source : String) :
    match tokenize source with
    | .ok tokens =>
      ∃ body, tokens = body ++ [Token.endAt source.utf8ByteSize] ∧
        Munched 0 source.toList body [] ∧
        (∀ t ∈ body, t.kind ≠ .endOfInput ∧ t.span.start < t.span.stop ∧
          ∃ text, t.span.Cuts source text ∧ Lexeme.Denotes text.toList t.kind) ∧
        body.Pairwise fun t u => t.span.stop ≤ u.span.start
    | .error e =>
      ∃ (front rest : String) (body : List Token), source = front ++ rest ∧
        Munched 0 source.toList body rest.toList ∧
        tokenize front = .ok (body ++ [Token.endAt front.utf8ByteSize]) ∧
        e.span.start = front.utf8ByteSize ∧ (∃ text, e.span.Cuts source text) ∧
        ¬ Lexeme.Fits rest.toList ∧ e.Concerns front.utf8ByteSize rest.toList := by
  have hmunches := munches_tokensFrom 0 source.toList
  rw [← tokenize] at hmunches
  cases htokens : tokenize source with
  | ok tokens =>
    rw [htokens] at hmunches
    obtain ⟨body, rfl, hmunched⟩ := hmunches
    have hscanned := tokensFrom_eq_ok_iff.mp htokens
    obtain ⟨body', stop, hbody, hkinds⟩ := hscanned.exists_body
    obtain ⟨rfl, -⟩ := List.append_inj' hbody rfl
    rw [Nat.zero_add, byteLength_toList]
    refine ⟨body, rfl, hmunched, fun t ht => ⟨hkinds t ht, ?_⟩,
      (hscanned.consecutive.1.sublist (List.sublist_append_left ..)).stop_le_start⟩
    obtain ⟨before, text, after, hsource, hspan, -, hdenotes⟩ := hmunched.exists_text ht
    rw [Nat.zero_add] at hspan
    obtain ⟨p, hp⟩ := hdenotes.matched
    refine ⟨?_, String.ofList text, hspan ▸ Span.cuts_of_append hsource, ?_⟩
    · rw [hspan]
      exact Nat.lt_add_of_pos_right (byteLength_pos (Pattern.ne_nil_of_mem hp))
    · rwa [String.toList_ofList]
  | error e =>
    have hcuts := LexError.exists_cuts htokens
    rw [htokens] at hmunches
    obtain ⟨front, rest, body, hsource, hmunched, hfront, hconcerns⟩ := hmunches
    obtain ⟨text, _, -, hspan⟩ := hconcerns.exists_text
    have hbytes : (String.ofList front).utf8ByteSize = 0 + byteLength front := by
      rw [← byteLength_toList, String.toList_ofList, Nat.zero_add]
    refine ⟨String.ofList front, String.ofList rest, body, ?_, ?_, ?_, ?_, hcuts, ?_, ?_⟩
    · rw [← String.ofList_append, ← hsource, String.ofList_toList]
    · rwa [String.toList_ofList]
    · rw [tokenize, String.toList_ofList, hbytes, hfront]
    · rw [hspan, hbytes]
    · rw [String.toList_ofList]
      exact hconcerns.not_fits
    · rwa [String.toList_ofList, hbytes]

end ScopeScript
