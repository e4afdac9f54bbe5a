import ScopeScript.Proofs.Concatenation
import ScopeScript.Proofs.MaximalMunch
import ScopeScript.Proofs.SpansUnread

/-!
# Layout

What stands between the tokens of a text may be replaced by any other **white space and comments**,
as long as white space comes right behind each token. Then the text has the same tokens, and what it
is read as is the same program or the same error, but for spans (`ScopeScript.layout_irrelevant`).

There are three kinds of gaps. In front of the first token a comment may come first; between tokens
white space must, as a stroke might be read with the stroke of the comment, and as words would run
together; and behind the last token a comment need not end. A token is settled by its own text if
white space follows (`ScopeScript.Scanned.lexeme`), so the text is scanned token by token, whatever
the gaps. And readers do not look at spans (`ScopeScript.parse_mapSpan`).
-/

namespace ScopeScript

/-! ### Gaps -/

/-- **White space and comments**, each comment with the line end that closes it. -/
inductive Gap : List Char → Prop
  /-- Nothing. -/
  | nil : Gap []
  /-- White space. -/
  | space {c cs} (hc : IsSpace c) (h : Gap cs) : Gap (c :: cs)
  /-- A comment, up to the end of its line. -/
  | comment {line cs} (hline : '\n' ∉ line) (h : Gap cs) : Gap ('/' :: '/' :: line ++ '\n' :: cs)

/-- The text **begins with white space**. -/
def BeginsBlank (cs : List Char) : Prop :=
  ∃ c rest, cs = c :: rest ∧ IsSpace c

/-- **What may stand behind the last token**: nothing, or a gap that begins with white space, and
perhaps a comment at its end that no line end closes. -/
inductive Trailing : List Char → Prop
  /-- Nothing. -/
  | nil : Trailing []
  /-- A gap. -/
  | gap {cs} (h : Gap cs) (hblank : BeginsBlank cs) : Trailing cs
  /-- A gap and a comment that goes on to the end of the text. -/
  | openComment {cs line} (h : Gap cs) (hblank : BeginsBlank cs) (hline : '\n' ∉ line) :
    Trailing (cs ++ '/' :: '/' :: line)

/-- **What stands behind a token** in another layout: the later tokens, each with the text that its
span cuts out of the source, with gaps between them. -/
inductive Follow (source : String) : List Token → List Char → Prop
  /-- Behind the last token. -/
  | trailing {cs} (h : Trailing cs) : Follow source [] cs
  /-- A gap, the next token, and what stands behind it. -/
  | token {t ts text gap cs} (hgap : Gap gap) (hblank : BeginsBlank gap)
    (hcuts : t.span.Cuts source text) (h : Follow source ts cs) :
    Follow source (t :: ts) (gap ++ (text.toList ++ cs))

/-- The tokens of a source **in another layout**. The mark of the end is not among them. -/
inductive Relaid (source : String) : List Token → List Char → Prop
  /-- There are none. -/
  | empty {lead cs} (hlead : Gap lead) (h : Trailing cs) : Relaid source [] (lead ++ cs)
  /-- A gap, the first token, and what stands behind it. -/
  | tokens {t ts text lead cs} (hlead : Gap lead) (hcuts : t.span.Cuts source text)
    (h : Follow source ts cs) : Relaid source (t :: ts) (lead ++ (text.toList ++ cs))

/-! ### Scanning gaps -/

namespace Lexeme

variable {c : Char} {cs line : List Char}

theorem first_space (hc : IsSpace c) : first c cs = ⟨.blank, [c], cs⟩ := by
  rw [first, if_pos (isBlank_iff.mpr hc)]

/-- A comment that **no line end closes** takes all of the text. -/
theorem first_comment (hline : '\n' ∉ line) :
    first '/' ('/' :: line) = ⟨.blank, '/' :: '/' :: line, []⟩ := by
  have hslash : family '/' = .sign := by decide
  rw [first_eq, hslash]
  refine (if_pos ⟨rfl, rfl⟩).trans (run_of_forall fun d hd => decide_eq_true ?_)
  rcases List.mem_cons.mp hd with rfl | hd
  · decide
  · rintro rfl
    exact hline hd

end Lexeme

namespace Scanned

variable {pos : Nat} {w gap cs line : List Char} {tokens : List Token} {kind : Token.Kind}

/-- A gap is **passed over**. -/
theorem gap_append (hgap : Gap gap) (h : Scanned (pos + byteLength gap) cs tokens) :
    Scanned pos (gap ++ cs) tokens := by
  induction hgap generalizing pos with
  | nil => exact h
  | space hc _ ih =>
    rw [byteLength_cons, ← Nat.add_assoc] at h
    exact .blank (Lexeme.first_space hc) (ih h)
  | @comment line gap hline _ ih =>
    -- the comment ends before the line end, which is white space
    have hcut := Lexeme.first_before (b := '\n') (Lexeme.first_comment hline) nofun rfl
      (fun _ => rfl) (gap ++ cs)
    rw [List.append_cons, byteLength_append, byteLength_append, ← Nat.add_assoc,
      ← Nat.add_assoc] at h
    rw [List.append_assoc]
    exact .blank hcut (.blank (Lexeme.first_space (by decide)) (ih h))

/-- Behind the last token **no token stands**. -/
theorem trailing (pos : Nat) (h : Trailing cs) : ∃ stop, Scanned pos cs [Token.endAt stop] := by
  cases h with
  | nil => exact ⟨_, .nil⟩
  | gap hgap =>
    have hscanned : Scanned pos (cs ++ []) _ := gap_append hgap .nil
    rw [List.append_nil] at hscanned
    exact ⟨_, hscanned⟩
  | openComment hgap _ hline =>
    exact ⟨_, gap_append hgap (.blank (Lexeme.first_comment hline) .nil)⟩

/-- **A token is settled by its own text** where nothing or white space follows. -/
theorem lexeme (hw : Lexeme.Denotes w kind) (hcs : cs = [] ∨ BeginsBlank cs)
    (h : Scanned (pos + byteLength w) cs tokens) :
    Scanned pos (w ++ cs) (⟨kind, ⟨pos, pos + byteLength w⟩⟩ :: tokens) := by
  obtain ⟨c, more, rfl, hcut⟩ := hw.first_eq
  rcases hcs with rfl | ⟨b, rest, rfl, hb⟩
  · rw [List.append_nil]
    exact .token hcut h
  · have hbefore := Lexeme.first_before hcut nofun (Lexeme.isBlank_iff.mpr hb) nofun rest
    exact .token hbefore h

end Scanned

/-! ### Scanning other layouts -/

theorem append_inj_of_byteLength {as bs cs ds : List Char} (h : as ++ bs = cs ++ ds)
    (hlength : byteLength as = byteLength cs) : as = cs ∧ bs = ds := by
  rcases List.append_eq_append_iff.mp h with ⟨more, rfl, rfl⟩ | ⟨more, rfl, rfl⟩ <;>
  · rw [byteLength_append] at hlength
    obtain rfl : more = [] := by
      by_contra hne
      have := byteLength_pos hne
      omega
    simp

/-- A span cuts **one text** out of a source. -/
theorem Span.Cuts.unique {s : Span} {source text text' : String} (h : s.Cuts source text)
    (h' : s.Cuts source text') : text = text' := by
  obtain ⟨before, after, rfl, rfl⟩ := h
  obtain ⟨before', after', hsource, hspan⟩ := h'
  obtain ⟨hstart, hstop⟩ := Span.mk.inj hspan
  have hchars := congrArg String.toList hsource
  simp only [String.toList_append, List.append_assoc] at hchars
  simp only [← byteLength_toList] at hstart hstop
  obtain ⟨-, hrest⟩ := append_inj_of_byteLength hchars hstart
  obtain ⟨htext, -⟩ := append_inj_of_byteLength hrest (by omega)
  exact String.toList_inj.mp htext

theorem Follow.blank {source : String} {ts : List Token} {cs : List Char}
    (h : Follow source ts cs) : cs = [] ∨ BeginsBlank cs := by
  have happend {gap cs : List Char} (hblank : BeginsBlank gap) : BeginsBlank (gap ++ cs) := by
    obtain ⟨c, rest, rfl, hc⟩ := hblank
    exact ⟨c, rest ++ cs, rfl, hc⟩
  cases h with
  | trailing h =>
    cases h with
    | nil => exact .inl rfl
    | gap _ hblank => exact .inr hblank
    | openComment _ hblank => exact .inr (happend hblank)
  | token _ hblank => exact .inr (happend hblank)

section Source

variable {source : String} {body : List Token} {cs : List Char}

/-- **What stands behind a token is scanned into the later tokens.** -/
theorem Follow.exists_scanned
    (hbody : ∀ t ∈ body, ∀ text, t.span.Cuts source text → Lexeme.Denotes text.toList t.kind)
    (h : Follow source body cs) (pos : Nat) : ∃ tokens, Scanned pos cs tokens ∧
      tokens.map Token.kind = body.map Token.kind ++ [.endOfInput] := by
  induction h generalizing pos with
  | trailing h =>
    obtain ⟨stop, hscanned⟩ := Scanned.trailing pos h
    exact ⟨_, hscanned, rfl⟩
  | @token t ts text gap cs hgap _ hcuts hfollow ih =>
    obtain ⟨ht, hts⟩ := List.forall_mem_cons.mp hbody
    obtain ⟨tokens, hscanned, hkinds⟩ := ih hts (pos + byteLength gap + byteLength text.toList)
    refine ⟨_, .gap_append hgap (.lexeme (ht text hcuts) hfollow.blank hscanned), ?_⟩
    rw [List.map_cons, hkinds]
    rfl

/-- **Tokens in another layout are scanned again**, with other spans. -/
theorem Relaid.exists_scanned
    (hbody : ∀ t ∈ body, ∀ text, t.span.Cuts source text → Lexeme.Denotes text.toList t.kind)
    (h : Relaid source body cs) : ∃ tokens, Scanned 0 cs tokens ∧
      tokens.map Token.kind = body.map Token.kind ++ [.endOfInput] := by
  cases h with
  | @empty lead _ hlead h =>
    obtain ⟨stop, hscanned⟩ := Scanned.trailing (0 + byteLength lead) h
    exact ⟨_, hscanned.gap_append hlead, rfl⟩
  | @tokens t ts text lead cs hlead hcuts hfollow =>
    obtain ⟨ht, hts⟩ := List.forall_mem_cons.mp hbody
    obtain ⟨tokens, hscanned, hkinds⟩ :=
      hfollow.exists_scanned hts (0 + byteLength lead + byteLength text.toList)
    refine ⟨_, .gap_append hlead (.lexeme (ht text hcuts) hfollow.blank hscanned), ?_⟩
    rw [List.map_cons, hkinds]
    rfl

end Source

/-! ### Reading other layouts -/

/-- Two texts are read as **the same program but for spans**, or have the same error of the grammar,
with the same token in it, but for spans. -/
def ReadAlike : Except SourceError Program → Except SourceError Program → Prop
  | .ok p, .ok q => p.mapSpan Span.unplaced = q.mapSpan Span.unplaced
  | .error (.grammatical e), .error (.grammatical e') =>
    e.mapSpan Span.unplaced = e'.mapSpan Span.unplaced
  | _, _ => False

/-- Tokens of the same kinds are **read alike**. -/
theorem readAlike_of_kinds {source source' : String} {tokens tokens' : List Token}
    (h : tokenize source = .ok tokens) (h' : tokenize source' = .ok tokens')
    (hkinds : tokens.map Token.kind = tokens'.map Token.kind) :
    ReadAlike (Program.ofSource source) (Program.ofSource source') := by
  have hunplaced (ts : List Token) : ts.map (Token.mapSpan Span.unplaced) =
      (ts.map Token.kind).map fun kind => ⟨kind, .none⟩ := by
    rw [List.map_map]
    rfl
  have hparse : parse (tokens.map (Token.mapSpan Span.unplaced)) =
      parse (tokens'.map (Token.mapSpan Span.unplaced)) := by
    rw [hunplaced, hunplaced, hkinds]
  rw [parse_mapSpan Span.merges_unplaced rfl, parse_mapSpan Span.merges_unplaced rfl] at hparse
  rw [Program.ofSource, Program.ofSource, h, h']
  simp only
  revert hparse
  rcases parse tokens with e | p <;> rcases parse tokens' with e' | q <;> intro hparse
  · exact Except.error.inj hparse
  · cases hparse
  · cases hparse
  · exact Except.ok.inj hparse

/-- **Layout does not matter.** Where the gaps between the tokens of a text are replaced, the new
text has the same tokens but for spans, and is read as the same program or has the same error but
for spans. -/
theorem layout_irrelevant {source source' : String} {body : List Token} {last : Token}
    (h : tokenize source = .ok (body ++ [last])) (hrelaid : Relaid source body source'.toList) :
    (∃ tokens, tokenize source' = .ok tokens ∧
      tokens.map Token.kind = (body ++ [last]).map Token.kind) ∧
    ReadAlike (Program.ofSource source) (Program.ofSource source') := by
  have hmunched := tokenize_munched source
  rw [h] at hmunched
  obtain ⟨body', hbody', -, hdenotes, -⟩ := hmunched
  obtain ⟨rfl, hlast⟩ := List.append_inj' hbody' rfl
  obtain rfl := (List.cons.inj hlast).1
  obtain ⟨tokens, hscanned, hkinds⟩ := hrelaid.exists_scanned fun t ht text hcuts => by
    obtain ⟨-, -, text', hcuts', htext'⟩ := hdenotes t ht
    exact hcuts.unique hcuts' ▸ htext'
  have htokens : tokenize source' = .ok tokens := tokensFrom_eq_ok_iff.mpr hscanned
  have hsame : tokens.map Token.kind =
      (body ++ [Token.endAt source.utf8ByteSize]).map Token.kind := by
    rw [hkinds, List.map_append]
    rfl
  exact ⟨⟨tokens, htokens, hsame⟩, readAlike_of_kinds h htokens hsame.symm⟩

/-- Comments in front, between an operator and a string that has strokes in it, and at the end. -/
theorem layout_irrelevant_commented :
    (∃ last, tokenize "-\"//\"" =
        .ok ([⟨.operator .minus, ⟨0, 1⟩⟩, ⟨.text "//", ⟨1, 5⟩⟩] ++ [last])) ∧
      Relaid "-\"//\"" [⟨.operator .minus, ⟨0, 1⟩⟩, ⟨.text "//", ⟨1, 5⟩⟩]
        "//a\n- //b\n\"//\" //c".toList ∧
      (∃ tokens, tokenize "//a\n- //b\n\"//\" //c" = .ok tokens ∧
        tokens.map Token.kind = [.operator .minus, .text "//", .endOfInput]) ∧
      ReadAlike (Program.ofSource "-\"//\"")
        (Program.ofSource "//a\n- //b\n\"//\" //c") := by
  have hscanned : Scanned 0 "-\"//\"".toList _ := .token rfl (.token rfl .nil)
  have htokens : tokenize "-\"//\"" = .ok ([⟨.operator .minus, ⟨0, 1⟩⟩, ⟨.text "//", ⟨1, 5⟩⟩] ++
      [⟨.endOfInput, ⟨5, 5⟩⟩]) := tokensFrom_eq_ok_iff.mpr hscanned
  have hminus : Span.Cuts ⟨0, 1⟩ "-\"//\"" "-" := ⟨"", "\"//\"", by decide, rfl⟩
  have htext : Span.Cuts ⟨1, 5⟩ "-\"//\"" "\"//\"" := ⟨"-", "", by decide, rfl⟩
  have hlead : Gap ['/', '/', 'a', '\n'] := @Gap.comment ['a'] [] (by decide) .nil
  have hbetween : Gap [' ', '/', '/', 'b', '\n'] :=
    .space (by decide) (@Gap.comment ['b'] [] (by decide) .nil)
  have hbehind : Trailing [' ', '/', '/', 'c'] :=
    @Trailing.openComment [' '] ['c'] (.space (by decide) .nil) ⟨_, _, rfl, by decide⟩ (by decide)
  have hfollow : Follow "-\"//\"" [⟨.text "//", ⟨1, 5⟩⟩] _ :=
    .token hbetween ⟨_, _, rfl, by decide⟩ htext (.trailing hbehind)
  have hlaid : Relaid "-\"//\"" (⟨.operator .minus, ⟨0, 1⟩⟩ :: _) _ :=
    .tokens hlead hminus hfollow
  have hrelaid : Relaid "-\"//\"" [⟨.operator .minus, ⟨0, 1⟩⟩, ⟨.text "//", ⟨1, 5⟩⟩]
      "//a\n- //b\n\"//\" //c".toList := hlaid
  obtain ⟨hrescanned, halike⟩ := layout_irrelevant htokens hrelaid
  exact ⟨⟨_, htokens⟩, hrelaid, hrescanned, halike⟩

end ScopeScript
