import Mathlib.Data.List.Find
import ScopeScript.Proofs.NodeText

/-!
# Programs written one after the other

Two programs can be written into one text, one after the other, with a semicolon on a line of its
own between them. Then **the text is a program again: the statements of the first program and behind
them those of the second** (`ScopeScript.ofSource_joined`), which stand as many bytes further on as
come before them.

The line end ends whatever lexeme the first text ends with, be it a word, a numeral or a comment, so
that it is scanned as if nothing followed (`ScopeScript.Lexeme.first_before`). The semicolon ends
the last statement of the first program, which could otherwise go on in the second; so the first
text must not end with a semicolon already, as one statement takes but one.
-/

namespace ScopeScript

/-! ### A lexeme before white space -/

theorem takeWhile_before {p : Char → Bool} {b : Char} (hp : p b = false) (cs post : List Char) :
    (cs ++ b :: post).takeWhile p = cs.takeWhile p ∧
      (cs ++ b :: post).dropWhile p = cs.dropWhile p ++ b :: post := by
  induction cs with
  | nil => simp [hp]
  | cons c cs ih =>
    by_cases hc : p c
    · simp [hc, ih]
    · simp [hc]

/-- A word without a certain character is in front of a text **up to that character**, or not at
all. -/
theorem isPrefixOf_before {word : List Char} {b : Char} (hword : b ∉ word) (cs post : List Char) :
    word.isPrefixOf (cs ++ b :: post) = word.isPrefixOf cs := by
  induction word generalizing cs with
  | nil => simp
  | cons d word ih =>
    obtain ⟨hd, hword⟩ := not_or.mp (mt List.mem_cons.mpr hword)
    cases cs with
    | nil => simp [List.isPrefixOf, Ne.symm hd]
    | cons c cs => simp [List.isPrefixOf, ih hword]

namespace Lexeme

variable {b c : Char} {cs text rest : List Char} {lexeme : Lexeme}

theorem run_before {p : Char → Bool} (hp : p b = false) {make : List Char → Lexeme}
    (h : run p c cs make = ⟨lexeme, text, rest⟩) (post : List Char) :
    run p c (cs ++ b :: post) make = ⟨lexeme, text, rest ++ b :: post⟩ := by
  obtain ⟨htake, hdrop⟩ := takeWhile_before hp cs post
  simp only [run, Cut.mk.injEq] at h ⊢
  rw [htake, hdrop]
  exact ⟨h.1, h.2.1, congrArg (· ++ b :: post) h.2.2⟩

/-- A string literal that is closed is closed **before more text** too. -/
theorem literal_append {quote : Char} {value : List Char}
    (h : literal quote cs = ⟨some value, text, rest⟩) (post : List Char) :
    literal quote (cs ++ post) = ⟨some value, text, rest ++ post⟩ := by
  fun_induction literal quote cs generalizing value text with
  | case1 | case2 => cases h
  | case3 d cs ih =>
    obtain ⟨value', text', hl, rfl, rfl⟩ := push_eq_iff.mp h
    rw [List.cons_append, List.cons_append, literal, push_eq_iff]
    exact ⟨_, _, ih hl, rfl, rfl⟩
  | case4 cs hnil hcons =>
    cases h
    have hquote : quote ≠ '\\' := fun hq => by
      cases hcs : rest with
      | nil => exact hnil hq hcs
      | cons d ds => exact hcons d ds hq hcs
    rw [List.cons_append, literal_cons hquote, if_pos rfl]
  | case5 d cs hnil hcons hne ih =>
    have hd : d ≠ '\\' := fun hd => by
      cases hcs : cs with
      | nil => exact hnil hd hcs
      | cons d' ds => exact hcons d' ds hd hcs
    obtain ⟨value', text', hl, rfl, rfl⟩ := push_eq_iff.mp h
    rw [List.cons_append, literal_cons hd, if_neg hne, push_eq_iff]
    exact ⟨_, _, ih hl, rfl, rfl⟩

theorem quotedCut_append (h : quotedCut c cs = ⟨lexeme, text, rest⟩) (hclosed : lexeme ≠ .unclosed)
    (post : List Char) : quotedCut c (cs ++ post) = ⟨lexeme, text, rest ++ post⟩ := by
  rcases hl : literal c cs with ⟨_ | value, text', rest'⟩
  · simp only [quotedCut, hl, Cut.mk.injEq] at h
    exact absurd h.1.symm hclosed
  · simp only [quotedCut, hl, Cut.mk.injEq] at h
    obtain ⟨rfl, rfl, rfl⟩ := h
    simp only [quotedCut, literal_append hl post]

/-- White space is **no part of anything else** that is cut off. -/
theorem blank_spec (hb : isBlank b) : continuesWord b = false ∧ continuesNumeral b = false ∧
    b ≠ '/' ∧ ∀ s ∈ signs, b ∉ s.1 := by
  have hb : b = ' ' ∨ b = '\t' ∨ b = '\n' ∨ b = '\r' ∨ b = '\x0c' := by
    simpa [isBlank, or_assoc] using hb
  rcases hb with rfl | rfl | rfl | rfl | rfl <;> decide

/-- No sign goes over white space. -/
theorem signCut_before (hb : isBlank b) (h : signCut c cs = ⟨lexeme, text, rest⟩)
    (post : List Char) : signCut c (cs ++ b :: post) = ⟨lexeme, text, rest ++ b :: post⟩ := by
  obtain ⟨-, -, -, hsigns⟩ := blank_spec hb
  have hfind : signs.find? (fun s => s.1.isPrefixOf (c :: (cs ++ b :: post))) =
      signs.find? fun s => s.1.isPrefixOf (c :: cs) :=
    List.find?_congr fun s hs => isPrefixOf_before (hsigns s hs) (c :: cs) post
  rw [signCut, hfind]
  rw [signCut] at h
  cases hsign : signs.find? fun s => s.1.isPrefixOf (c :: cs) with
  | some found =>
    obtain ⟨sign, kind⟩ := found
    have hprefix : sign <+: c :: cs := by simpa using List.find?_some hsign
    rw [hsign] at h
    cases h
    simp only [← List.cons_append, List.drop_append_of_le_length hprefix.length_le]
  | none =>
    rw [hsign] at h
    cases h
    rfl

/-- **A lexeme ends before white space** as it does at the end of the text. Only a comment goes on
to the next line end. -/
theorem first_before (h : first c cs = ⟨lexeme, text, rest⟩) (hclosed : lexeme ≠ .unclosed)
    (hb : isBlank b) (hline : lexeme = .blank → b = '\n') (post : List Char) :
    first c (cs ++ b :: post) = ⟨lexeme, text, rest ++ b :: post⟩ := by
  obtain ⟨hword', hnumeral', hslash, -⟩ := blank_spec hb
  by_cases hblank : isBlank c
  · simp only [first, if_pos hblank, Cut.mk.injEq] at h ⊢
    exact ⟨h.1, h.2.1, congrArg (· ++ b :: post) h.2.2⟩
  by_cases hword : beginsWord c
  · simp only [first, if_neg hblank, if_pos hword] at h ⊢
    exact run_before hword' h post
  by_cases hnumeral : c.isDigit
  · simp only [first, if_neg hblank, if_neg hword, if_pos hnumeral] at h ⊢
    exact run_before hnumeral' h post
  by_cases hquote : isQuote c
  · simp only [first, if_neg hblank, if_neg hword, if_neg hnumeral, if_pos hquote] at h ⊢
    exact quotedCut_append h hclosed _
  simp only [first, if_neg hblank, if_neg hword, if_neg hnumeral, if_neg hquote] at h ⊢
  -- the second character of a comment is not the white space
  have hstroke : (cs ++ b :: post).head? = some '/' ↔ cs.head? = some '/' := by
    cases cs <;> simp [hslash]
  split at h
  · next hcomment =>
    rw [if_pos ⟨hcomment.1, hstroke.mpr hcomment.2⟩]
    obtain rfl := hline (congrArg Cut.lexeme h).symm
    exact run_before rfl h post
  · next hcomment =>
    rw [if_neg fun hc => hcomment ⟨hc.1, hstroke.mp hc.2⟩]
    exact signCut_before hb h post

end Lexeme

namespace Scanned

variable {pos : Nat} {cs post : List Char} {tokens body : List Token} {last : Token}

theorem ne_nil (h : Scanned pos cs tokens) : tokens ≠ [] := by
  obtain ⟨body, stop, rfl, -⟩ := h.exists_body
  simp

/-- **What stands on the next lines is scanned by itself.** -/
theorem lineEnd (h : Scanned pos cs (body ++ [last]))
    (h' : Scanned (pos + byteLength cs + 1) post tokens) :
    Scanned pos (cs ++ '\n' :: post) (body ++ tokens) := by
  generalize hall : body ++ [last] = all at h
  induction h generalizing body with
  | @nil pos =>
    obtain ⟨rfl, -⟩ | ⟨-, h⟩ := List.append_eq_singleton_iff.mp hall
    · exact .blank rfl h'
    · contradiction
  | blank hcut _ ih =>
    refine .blank (Lexeme.first_before hcut nofun rfl (fun _ => rfl) post) (ih ?_ hall)
    rwa [Nat.add_assoc _ (byteLength _) (byteLength _), ← Lexeme.byteLength_of_first hcut]
  | token hcut hrest ih =>
    cases body with
    | nil => exact absurd (List.cons.inj hall).2.symm hrest.ne_nil
    | cons t body =>
      obtain ⟨rfl, htail⟩ := List.cons.inj hall
      refine .token (Lexeme.first_before hcut nofun rfl (fun _ => rfl) post) (ih ?_ htail)
      rwa [Nat.add_assoc _ (byteLength _) (byteLength _), ← Lexeme.byteLength_of_first hcut]

/-- A text that stands further on has the same tokens, **moved with it**. -/
theorem forth (h : Scanned pos cs tokens) (a : Nat) :
    Scanned (pos + a) cs (tokens.map (Token.mapSpan (Span.forth a))) := by
  induction h with
  | nil => exact .nil
  | @blank pos c cs text rest tokens hcut _ ih =>
    refine .blank hcut ?_
    rwa [Nat.add_right_comm]
  | @token pos c cs kind text rest tokens hcut _ ih =>
    have hspan : Span.forth a ⟨pos, pos + byteLength text⟩ =
        ⟨pos + a, pos + a + byteLength text⟩ :=
      congrArg (Span.mk (pos + a)) (Nat.add_right_comm ..)
    rw [List.map_cons, Token.mapSpan, hspan]
    refine .token hcut ?_
    rwa [Nat.add_right_comm]

/-- **A text is the program** that its tokens spell. -/
theorem ofSource_eq {source : String} {p : Program} (h : Scanned 0 source.toList tokens)
    (hp : p.Spelled tokens) : Program.ofSource source = .ok p := by
  have htokens : tokenize source = .ok tokens := tokensFrom_eq_ok_iff.mpr h
  rw [Program.ofSource, htokens]
  simp only [hp.parse_eq]

end Scanned

/-! ### Two texts in one -/

/-- **Two texts in one**, with a semicolon on a line of its own between them. -/
def joinedText (a b : String) : String :=
  a ++ "\n;\n" ++ b

/-- How many bytes come **before the second text**. -/
def joinedShift (a : String) : Nat :=
  a.utf8ByteSize + 3

/-- The last token of the text **is a semicolon**. -/
def EndsInSemicolon (text : String) : Prop :=
  ∃ tokens span last, tokenize text = .ok (tokens ++ [⟨.mark .semicolon, span⟩, last])

/-- The statements of a program, **and behind them those of another**, so many bytes further on. -/
def Program.joined (p q : Program) (shift : Nat) : Program :=
  ⟨p.statements ++ Stmt.mapSpanAll (Span.forth shift) q.statements⟩

/-- The tokens of two texts in one: those of the first, **a semicolon**, and those of the second. -/
theorem Scanned.joined {a b : String} {body tokens : List Token} {last : Token}
    (ha : Scanned 0 a.toList (body ++ [last])) (hb : Scanned 0 b.toList tokens) :
    Scanned 0 (joinedText a b).toList (body ++
      ⟨.mark .semicolon, ⟨a.utf8ByteSize + 1, a.utf8ByteSize + 2⟩⟩ ::
        tokens.map (Token.mapSpan (Span.forth (joinedShift a)))) := by
  have hlines : (joinedText a b).toList = a.toList ++ '\n' :: ';' :: '\n' :: b.toList := by
    simp [joinedText]
  have hmoved := hb.forth (joinedShift a)
  have hstart : 0 + byteLength a.toList + 1 = a.utf8ByteSize + 1 := by
    rw [Nat.zero_add, byteLength_toList]
  have hstop : 0 + joinedShift a = a.utf8ByteSize + 1 + byteLength [';'] + byteLength ['\n'] := by
    rw [Nat.zero_add]
    rfl
  rw [hstop] at hmoved
  rw [hlines]
  refine ha.lineEnd ?_
  rw [hstart]
  exact .token rfl (.blank rfl hmoved)

/-- **Statements go on behind a semicolon**, if the last one had none. -/
theorem Derives.statements_joined {n : Nat} {ss ss' : List Stmt} {body ts rest : List Token}
    {stop : Span} (h : Derives n (.statements ss) (body ++ [⟨.endOfInput, stop⟩])
      [⟨.endOfInput, stop⟩]) (hne : ss ≠ [])
    (hlast : ∀ t ∈ body.getLast?, t.kind ≠ .mark .semicolon)
    (h' : Derives n (.statements ss') ts rest) (span : Span) :
    Derives n (.statements (ss ++ ss')) (body ++ ⟨.mark .semicolon, span⟩ :: ts) rest := by
  -- neither the end of the input nor a semicolon continues an expression
  have hcomplete : Complete [⟨.endOfInput, stop⟩] → Complete (⟨.mark .semicolon, span⟩ :: ts) := by
    rintro - t ⟨⟩
    exact ⟨nofun, rfl⟩
  induction ss generalizing body with
  | nil => contradiction
  | cons s ss ih =>
    cases h with
    | moreStatements hs hss =>
      cases ss with
      | nil =>
        cases hss
        cases hs with
        | plain hbare =>
          obtain ⟨taken, heq, hmoved⟩ := hbare.movable
          obtain rfl := List.append_cancel_right heq
          exact .moreStatements (.terminated (hmoved n _ (Nat.le_refl n) hcomplete)) h'
        | @terminated _ _ span' _ _ hbare =>
          obtain ⟨taken, heq, -⟩ := hbare.takes
          have hbody : body = taken ++ [⟨.mark .semicolon, span'⟩] :=
            List.append_cancel_right (heq.trans (List.append_cons ..))
          exact absurd rfl (hlast ⟨.mark .semicolon, span'⟩ (by simp [hbody]))
      | cons s' ss =>
        obtain ⟨taken', rfl, hle, -⟩ := hss.takes
        obtain ⟨taken, heq, hmoved⟩ := hs.movable
        rw [← List.append_assoc] at heq
        obtain rfl := List.append_cancel_right heq
        have hlast' : ∀ t ∈ taken'.getLast?, t.kind ≠ .mark .semicolon := fun t ht =>
          hlast t (by rw [List.getLast?_append, Option.mem_def.mp ht]; rfl)
        rw [List.append_assoc]
        exact .moreStatements (hmoved n _ (Nat.le_refl n) (Complete.append_congr hcomplete taken'))
          (ih hss nofun hlast')

/-- **Two programs in one text are one program.** -/
theorem ofSource_joined {a b : String} {p q : Program} (hp : Program.ofSource a = .ok p)
    (hq : Program.ofSource b = .ok q) (hne : p.statements ≠ []) (hlast : ¬ EndsInSemicolon a) :
    Program.ofSource (joinedText a b) = .ok (p.joined q (joinedShift a)) := by
  obtain ⟨body, stop, hscanned, hspelled⟩ := Program.exists_scanned hp
  obtain ⟨body', stop', hscanned', hspelled'⟩ := Program.exists_scanned hq
  have hbody : ∀ t ∈ body.getLast?, t.kind ≠ .mark .semicolon := by
    rintro ⟨kind, span⟩ ht rfl
    obtain ⟨tokens, rfl⟩ := List.getLast?_eq_some_iff.mp ht
    rw [List.append_assoc] at hscanned
    exact hlast ⟨tokens, span, _, tokensFrom_eq_ok_iff.mpr hscanned⟩
  have hmoved := hspelled'.mapSpan (Span.merges_forth (joinedShift a))
  exact (hscanned.joined hscanned').ofSource_eq
    ⟨_, hspelled.statements_joined hne hbody hmoved _⟩

end ScopeScript
