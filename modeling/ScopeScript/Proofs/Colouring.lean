import ScopeScript.Console.Highlight
import ScopeScript.Proofs.Layout

/-!
# Colouring adds nothing but colour

**A line in colour is the line, with control sequences around some of its tokens**
(`ScopeScript.paint_exact`). Whoever takes the control sequences out again has the line as it was
typed, and what stands between a control sequence that begins a colour and the one that ends it is
the text of a keyword, of a string, of a number, or of a truth value. So a line may have no control
sequences of its own.

The colouring cuts the line at the tokens, and everything depends on these cuts: that each lies
between two characters, and that each begins where the one before ended. This is
`ScopeScript.Highlight.Stitched`, which says of every cut what text it takes. What a terminal makes
of a text in colour is defined apart from the colouring, by reading control sequences off its front
(`ScopeScript.Highlight.shown`).
-/

namespace ScopeScript

namespace Highlight

/-! ### Reading a text in colour -/

/-- The characters that **parameters of control sequences** have. -/
def isParameter (c : Char) : Bool :=
  c.isDigit || c = ';'

/-- The control sequence for a colour, or for none. -/
def control (parameters : List Char) : List Char :=
  '\x1b' :: '[' :: parameters ++ ['m']

/-- The control sequence **at the front of a text**, if one stands there: its parameters, and the
text behind it. -/
def controlCut? : List Char → Option (List Char × List Char)
  | '\x1b' :: '[' :: cs =>
    match cs.dropWhile isParameter with
    | 'm' :: rest => some (cs.takeWhile isParameter, rest)
    | _ => none
  | _ => none

/-- What a terminal takes **off the front** of a text. -/
inductive Shown where
  /-- A character to be shown. -/
  | character (c : Char)
  /-- A control sequence for a colour. -/
  | colour (parameters : List Char)
deriving DecidableEq

theorem length_controlCut? {cs parameters rest : List Char}
    (h : controlCut? cs = some (parameters, rest)) : rest.length < cs.length := by
  unfold controlCut? at h
  split at h
  · next cs =>
    split at h
    · next more hdrop =>
      cases h
      have hle := (List.dropWhile_suffix isParameter (l := cs)).length_le
      rw [hdrop] at hle
      simp only [List.length_cons] at hle ⊢
      omega
    · cases h
  · cases h

/-- What **a terminal makes of a text**. -/
def shown : List Char → List Shown
  | [] => []
  | c :: cs =>
    match _h : controlCut? (c :: cs) with
    | some (parameters, rest) => .colour parameters :: shown rest
    | none => .character c :: shown cs
termination_by cs => cs.length
decreasing_by
  · exact length_controlCut? _h
  · exact Nat.lt_succ_self _

/-- The character that is shown, if one is. -/
def Shown.character? : Shown → Option Char
  | .character c => some c
  | .colour _ => none

/-- A text **without its control sequences**. -/
def uncoloured (text : String) : String :=
  String.ofList ((shown text.toList).filterMap Shown.character?)

/-- What is shown **in one colour**: the control sequence for the colour, and the text behind it. -/
structure Stretch where
  /-- The control sequence. -/
  colour : String
  /-- The text. -/
  text : String
deriving DecidableEq

/-- The stretches in colour, where the characters of `before` have been shown in the colour with the
given parameters already. There is no telling if a colour is not ended **by a reset before the next
begins**, or if nothing is reset. -/
def stretchesFrom : Option (List Char × List Char) → List Shown → Option (List Stretch)
  | none, [] => some []
  | none, .character _ :: rest => stretchesFrom none rest
  | none, .colour parameters :: rest =>
    if parameters = ['0'] then none else stretchesFrom (some (parameters, [])) rest
  | some _, [] => none
  | some (parameters, before), .character c :: rest =>
    stretchesFrom (some (parameters, before ++ [c])) rest
  | some (parameters, before), .colour parameters' :: rest =>
    if parameters' = ['0'] then
      (stretchesFrom none rest).map
        (⟨String.ofList (control parameters), String.ofList before⟩ :: ·)
    else none

/-- The **stretches in colour** of a text, if each is closed by a reset. -/
def stretches (text : String) : Option (List Stretch) :=
  stretchesFrom none (shown text.toList)

theorem controlCut?_eq_none {c : Char} (hc : c ≠ '\x1b') (cs : List Char) :
    controlCut? (c :: cs) = none := by
  unfold controlCut?
  split
  · next h => exact absurd (List.cons.inj h).1 hc
  · rfl

/-- Characters other than the escape **are shown**. -/
theorem shown_append {text : List Char} (htext : '\x1b' ∉ text) (cs : List Char) :
    shown (text ++ cs) = text.map .character ++ shown cs := by
  induction text with
  | nil => rfl
  | cons c text ih =>
    obtain ⟨hc, htext⟩ := not_or.mp (mt List.mem_cons.mpr htext)
    rw [List.cons_append, shown]
    split
    · next h =>
      rw [controlCut?_eq_none (Ne.symm hc)] at h
      cases h
    · rw [ih htext, List.map_cons, List.cons_append]

theorem shown_eq_map {text : List Char} (htext : '\x1b' ∉ text) :
    shown text = text.map .character := by
  have hshown := shown_append htext []
  rwa [List.append_nil, shown, List.append_nil] at hshown

/-- A control sequence **is taken for a colour**. -/
theorem shown_control {parameters : List Char} (hparameters : parameters.all isParameter)
    (cs : List Char) : shown (control parameters ++ cs) = .colour parameters :: shown cs := by
  have hcut : controlCut? ('\x1b' :: '[' :: (parameters ++ 'm' :: cs)) = some (parameters, cs) := by
    obtain ⟨htake, hdrop⟩ := @takeWhile_before isParameter 'm' rfl parameters cs
    rw [List.takeWhile_eq_self_iff.mpr (List.all_eq_true.mp hparameters)] at htake
    rw [List.dropWhile_eq_nil_iff.mpr (List.all_eq_true.mp hparameters)] at hdrop
    simp only [controlCut?, hdrop, htake, List.nil_append]
  rw [control, List.cons_append, List.cons_append, List.append_assoc, List.singleton_append, shown]
  split
  · next h =>
    cases hcut.symm.trans h
    rfl
  · next h => cases hcut.symm.trans h

/-! ### Tokens in colour -/

end Highlight

/-- Keywords, strings, numbers and truth values are **shown in colour**. -/
def Token.Kind.InColour : Token.Kind → Prop
  | .keyword _ | .text _ | .number _ => True
  | .identifier name => name = "true" ∨ name = "false"
  | _ => False

instance : DecidablePred Token.Kind.InColour
  | .keyword _ | .text _ | .number _ => inferInstanceAs (Decidable True)
  | .identifier name => inferInstanceAs (Decidable (name = "true" ∨ name = "false"))
  | .operator _ | .mark _ | .endOfInput => inferInstanceAs (Decidable False)

namespace Highlight

variable {kind : Token.Kind} {text : List Char}

/-- What is shown in colour has **a control sequence that is no reset**; all else has none. -/
theorem colour?_cases (kind : Token.Kind) :
    (kind.InColour ∧ ∃ parameters, colour? kind = some (String.ofList (control parameters)) ∧
      parameters.all isParameter ∧ parameters ≠ ['0']) ∨
    (¬ kind.InColour ∧ colour? kind = none) := by
  cases kind with
  | keyword k => exact .inl ⟨trivial, ['1', ';', '3', '5'], rfl, rfl, by decide⟩
  | text value => exact .inl ⟨trivial, ['3', '2'], rfl, rfl, by decide⟩
  | number value => exact .inl ⟨trivial, ['3', '3'], rfl, rfl, by decide⟩
  | identifier name =>
    by_cases hname : name = "true" ∨ name = "false"
    · exact .inl ⟨hname, ['3', '3'], if_pos hname, rfl, by decide⟩
    · exact .inr ⟨hname, if_neg hname⟩
  | operator op | mark m | endOfInput => exact .inr ⟨not_false, rfl⟩

/-- The text of a token in colour is **between the control sequence and a reset**. -/
theorem shown_coloured {parameters : List Char}
    (hcolour : colour? kind = some (String.ofList (control parameters)))
    (hparameters : parameters.all isParameter) (htext : '\x1b' ∉ text) (cs : List Char) :
    shown (coloured kind text ++ cs) =
      .colour parameters :: (text.map .character ++ .colour ['0'] :: shown cs) := by
  have hreset : reset.toList = control ['0'] := rfl
  simp only [coloured, hcolour, String.toList_ofList, hreset, List.append_assoc]
  rw [shown_control hparameters, shown_append htext, shown_control rfl]

theorem coloured_of_none (hcolour : colour? kind = none) : coloured kind text = text := by
  rw [coloured, hcolour]

/-! ### Cutting a line at its tokens -/

/-- **How a line in colour is put together** where the tokens from byte `last` on are the given
ones. Each cut takes a text from the line: that of a gap, that of a token, and that behind the last
token. -/
inductive Stitched (line : String) : Nat → List Token → List Char → Prop
  /-- Behind the last token. -/
  | trailing {last text} (htext : Span.Cuts ⟨last, line.utf8ByteSize⟩ line text) :
    Stitched line last [] text.toList
  /-- A gap, and a token. -/
  | token {last t ts gap text out} (hgap : Span.Cuts ⟨last, t.span.start⟩ line gap)
    (htext : t.span.Cuts line text) (h : Stitched line t.span.stop ts out) :
    Stitched line last (t :: ts) (gap.toList ++ coloured t.kind text.toList ++ out)

end Highlight

/-- Texts that are cut out **one behind the other** are cut out together. -/
theorem Span.Cuts.append {a b c : Nat} {source text text' : String}
    (h : Span.Cuts ⟨a, b⟩ source text) (h' : Span.Cuts ⟨b, c⟩ source text') :
    Span.Cuts ⟨a, c⟩ source (text ++ text') := by
  obtain ⟨before, after, hsource, hspan⟩ := h
  obtain ⟨before', after', hsource', hspan'⟩ := h'
  obtain ⟨rfl, rfl⟩ := Span.mk.inj hspan
  obtain ⟨hstart, rfl⟩ := Span.mk.inj hspan'
  have hchars := congrArg String.toList (hsource.symm.trans hsource')
  simp only [String.toList_append, List.append_assoc] at hchars
  rw [← List.append_assoc] at hchars
  obtain ⟨hfront, -⟩ := append_inj_of_byteLength hchars (by simpa using hstart)
  rw [← String.toList_append, String.toList_inj] at hfront
  refine ⟨before, after', ?_, ?_⟩
  · rw [hsource', ← hfront, @String.append_assoc before]
  · rw [← hfront]
    simp [Nat.add_assoc]

/-- What stands **up to the end** is cut out of a text by the rest of its bytes. -/
theorem Span.cuts_trailing {source : String} {before text : List Char}
    (h : source.toList = before ++ text) :
    Span.Cuts ⟨byteLength before, source.utf8ByteSize⟩ source (String.ofList text) := by
  rw [← byteLength_toList, h, byteLength_append]
  exact Span.cuts_of_append (by rw [h, List.append_nil])

namespace Highlight

/-- A token is coloured **behind the gap before it**. -/
theorem paintFrom_token {last start stop : Nat} {gap text rest : List Char} {kind : Token.Kind}
    (hstart : start = last + byteLength gap) (hstop : stop = start + byteLength text)
    (ts : List Token) :
    paintFrom last (gap ++ (text ++ rest)) (⟨kind, ⟨start, stop⟩⟩ :: ts) =
      gap ++ coloured kind text ++ paintFrom stop rest ts := by
  subst hstart hstop
  simp only [paintFrom, Nat.add_sub_cancel_left, Text.cutBytes_append]

theorem Stitched.of_append {line : String} {front gap text rest out : List Char}
    {start stop : Nat} {ts : List Token} (hline : line.toList = front ++ (gap ++ (text ++ rest)))
    (hstart : start = byteLength front + byteLength gap) (hstop : stop = start + byteLength text)
    (kind : Token.Kind) (h : Stitched line stop ts out) :
    Stitched line (byteLength front) (⟨kind, ⟨start, stop⟩⟩ :: ts)
      (gap ++ coloured kind text ++ out) := by
  have hgap : Span.Cuts ⟨byteLength front, start⟩ line (String.ofList gap) := by
    rw [hstart]
    exact Span.cuts_of_append (by rw [hline, List.append_assoc])
  have htext : Span.Cuts ⟨start, stop⟩ line (String.ofList text) := by
    rw [hstop, hstart, ← byteLength_append]
    exact Span.cuts_of_append (by rw [hline, List.append_assoc, List.append_assoc])
  have hstitched := Stitched.token (t := ⟨kind, ⟨start, stop⟩⟩) hgap htext h
  rwa [String.toList_ofList, String.toList_ofList] at hstitched

/-- The colouring **cuts the line as its tokens lie**. A gap may have been passed over already. -/
theorem stitched_paintFrom {line : String} {front gap cs : List Char} {pos : Nat}
    {tokens : List Token} (hline : line.toList = front ++ (gap ++ cs))
    (hpos : pos = byteLength front + byteLength gap) (h : Scanned pos cs tokens) :
    Stitched line (byteLength front) tokens (paintFrom (byteLength front) (gap ++ cs) tokens) := by
  induction h generalizing front gap with
  | @nil pos =>
    -- the mark of the end is a token without text
    have hend : Stitched line pos [] [] := by
      have hcuts : Span.Cuts _ line _ :=
        @Span.cuts_trailing line (front ++ gap) [] (by simp [hline])
      rw [byteLength_append, ← hpos] at hcuts
      exact .trailing hcuts
    have hpaint : paintFrom (byteLength front) (gap ++ []) [⟨.endOfInput, ⟨pos, pos⟩⟩] = _ :=
      @paintFrom_token _ _ _ gap [] [] .endOfInput hpos rfl []
    rw [hpaint]
    exact @Stitched.of_append _ _ _ [] [] _ _ _ _ hline hpos rfl .endOfInput hend
  | @blank pos c cs text rest tokens hcut _ ih =>
    have htext := Lexeme.text_append_of_first hcut
    have hrest := @ih front (gap ++ text) (by simp [hline, htext])
      (by rw [hpos, byteLength_append, Nat.add_assoc])
    rwa [List.append_assoc, htext] at hrest
  | @token pos c cs kind text rest tokens hcut _ ih =>
    have htext := Lexeme.text_append_of_first hcut
    rw [← htext] at hline ⊢
    have hrest := @ih (front ++ (gap ++ text)) [] (by simp [hline]) (by simp [hpos, Nat.add_assoc])
    rw [byteLength_append, byteLength_append, ← Nat.add_assoc, ← hpos] at hrest
    rw [paintFrom_token hpos rfl]
    exact .of_append hline hpos rfl kind hrest

/-! ### What is seen of a line in colour -/

theorem characters_map (text : List Char) :
    (text.map Shown.character).filterMap Shown.character? = text := by
  rw [List.filterMap_map]
  exact List.filterMap_some

theorem characters_append {text : List Char} (rest : List Shown) :
    (text.map Shown.character ++ rest).filterMap Shown.character? =
      text ++ rest.filterMap Shown.character? := by
  rw [List.filterMap_append, characters_map]

/-- In the middle of a stretch, **characters go on with it**. -/
theorem stretchesFrom_some_append {parameters before text : List Char} {rest : List Shown} :
    stretchesFrom (some (parameters, before)) (text.map .character ++ rest) =
      stretchesFrom (some (parameters, before ++ text)) rest := by
  induction text generalizing before with
  | nil => rw [List.append_nil]; rfl
  | cons c text ih =>
    rw [List.map_cons, List.cons_append, stretchesFrom, ih, List.append_assoc,
      List.singleton_append]

/-- Elsewhere they are not told of. -/
theorem stretchesFrom_none_append {text : List Char} {rest : List Shown} :
    stretchesFrom none (text.map .character ++ rest) = stretchesFrom none rest := by
  induction text with
  | nil => rfl
  | cons c text ih => rw [List.map_cons, List.cons_append, stretchesFrom, ih]

section Coloured

variable {kind : Token.Kind} {text : List Char}

/-- **A token in colour** is shown with the characters that it has. -/
theorem characters_coloured (kind : Token.Kind) (htext : '\x1b' ∉ text) (cs : List Char) :
    (shown (coloured kind text ++ cs)).filterMap Shown.character? =
      text ++ (shown cs).filterMap Shown.character? := by
  rcases colour?_cases kind with ⟨-, parameters, hcolour, hparameters, -⟩ | ⟨-, hcolour⟩
  · rw [shown_coloured hcolour hparameters htext]
    exact characters_append _
  · rw [coloured_of_none hcolour, shown_append htext, characters_append]

/-- A token in colour is **a stretch of its own**. -/
theorem stretches_coloured (hkind : kind.InColour) (htext : '\x1b' ∉ text) (cs : List Char) :
    ∃ colour, colour? kind = some colour ∧ stretchesFrom none (shown (coloured kind text ++ cs)) =
      (stretchesFrom none (shown cs)).map (⟨colour, String.ofList text⟩ :: ·) := by
  rcases colour?_cases kind with ⟨-, parameters, hcolour, hparameters, hne⟩ | ⟨hnot, -⟩
  · refine ⟨_, hcolour, ?_⟩
    rw [shown_coloured hcolour hparameters htext, stretchesFrom, if_neg hne,
      stretchesFrom_some_append, stretchesFrom, if_pos rfl, List.nil_append]
  · exact absurd hkind hnot

/-- A token without colour is none. -/
theorem stretches_plain (hkind : ¬ kind.InColour) (htext : '\x1b' ∉ text) (cs : List Char) :
    stretchesFrom none (shown (coloured kind text ++ cs)) = stretchesFrom none (shown cs) := by
  rcases colour?_cases kind with ⟨h, -⟩ | ⟨-, hcolour⟩
  · exact absurd h hkind
  · rw [coloured_of_none hcolour, shown_append htext, stretchesFrom_none_append]

end Coloured

namespace Stitched

variable {line : String} {last : Nat} {ts : List Token} {out : List Char}

/-- What a line is put together from **has no escape** that the line has not. -/
theorem notMem_of_cuts {s : Span} {text : String} (hline : '\x1b' ∉ line.toList)
    (h : s.Cuts line text) : '\x1b' ∉ text.toList := by
  obtain ⟨before, after, rfl, -⟩ := h
  simp only [String.toList_append, List.mem_append, not_or] at hline
  exact hline.1.2

/-- **Without its control sequences** a line in colour is the line. -/
theorem characters_eq (h : Stitched line last ts out) (hline : '\x1b' ∉ line.toList) :
    ∃ text : String, Span.Cuts ⟨last, line.utf8ByteSize⟩ line text ∧
      (shown out).filterMap Shown.character? = text.toList := by
  induction h with
  | @trailing last text htext =>
    refine ⟨text, htext, ?_⟩
    rw [shown_eq_map (notMem_of_cuts hline htext), characters_map]
  | @token last t ts gap text out hgap htext _ ih =>
    obtain ⟨rest, hrest, hchars⟩ := ih
    refine ⟨gap ++ text ++ rest, (hgap.append htext).append hrest, ?_⟩
    rw [List.append_assoc, shown_append (notMem_of_cuts hline hgap), characters_append,
      characters_coloured t.kind (notMem_of_cuts hline htext), hchars, String.toList_append,
      String.toList_append, List.append_assoc]

/-- **The stretches in colour** are the texts of the tokens in colour. -/
theorem exists_stretches (h : Stitched line last ts out) (hline : '\x1b' ∉ line.toList) :
    ∃ found, stretchesFrom none (shown out) = some found ∧
      List.Forall₂ (fun (t : Token) (s : Stretch) =>
        colour? t.kind = some s.colour ∧ t.span.Cuts line s.text)
        (ts.filter fun t => t.kind.InColour) found := by
  induction h with
  | @trailing last text htext =>
    refine ⟨[], ?_, .nil⟩
    rw [shown_eq_map (notMem_of_cuts hline htext), ← List.append_nil (text.toList.map _),
      stretchesFrom_none_append, stretchesFrom]
  | @token last t ts gap text out hgap htext _ ih =>
    obtain ⟨found, hfound, hall⟩ := ih
    rw [List.append_assoc, shown_append (notMem_of_cuts hline hgap), stretchesFrom_none_append]
    have hescape := notMem_of_cuts hline htext
    by_cases hkind : t.kind.InColour
    · obtain ⟨colour, hcolour, hstretches⟩ := stretches_coloured hkind hescape out
      rw [hstretches, hfound, String.ofList_toList, List.filter_cons, if_pos (decide_eq_true hkind)]
      exact ⟨_, rfl, .cons ⟨hcolour, htext⟩ hall⟩
    · rw [stretches_plain hkind hescape, List.filter_cons, if_neg (mt of_decide_eq_true hkind)]
      exact ⟨found, hfound, hall⟩

end Stitched

end Highlight

namespace Highlight

variable {line : String}

theorem stitched_paint {tokens : List Token} (h : tokenize line = .ok tokens) :
    Stitched line 0 tokens (paint line).toList := by
  rw [paint, h, String.toList_ofList]
  exact @stitched_paintFrom line [] [] _ _ _ rfl rfl (tokensFrom_eq_ok_iff.mp h)

theorem paint_of_error {e : LexError} (h : tokenize line = .error e) : paint line = line := by
  rw [paint, h]

/-- A line in colour **is the line**, but for its control sequences. -/
theorem uncoloured_paint (hline : '\x1b' ∉ line.toList) : uncoloured (paint line) = line := by
  rw [uncoloured]
  cases htokens : tokenize line with
  | ok tokens =>
    obtain ⟨text, htext, hchars⟩ := (stitched_paint htokens).characters_eq hline
    have hall : Span.Cuts ⟨0, line.utf8ByteSize⟩ line line := by
      have hcuts := @Span.cuts_trailing line [] line.toList rfl
      rwa [String.ofList_toList] at hcuts
    rw [hchars, String.ofList_toList, htext.unique hall]
  | error e =>
    rw [paint_of_error htokens, shown_eq_map hline, characters_map, String.ofList_toList]

end Highlight

/-- **Colouring a line adds nothing but colour.** A line that is no list of tokens is left as it is.
Any other is put together from texts that are cut out of it, each between two characters and right
behind the one before, up to its end. If it has no escapes of its own, it is what remains of the
line in colour without the control sequences; and the stretches in colour, each closed by a reset,
are the texts of its keywords, strings, numbers and truth values, in order. -/
theorem paint_exact (line : String) :
    (∀ e, tokenize line = .error e → Highlight.paint line = line) ∧
    (∀ tokens, tokenize line = .ok tokens →
      Highlight.Stitched line 0 tokens (Highlight.paint line).toList) ∧
    ('\x1b' ∉ line.toList →
      Highlight.uncoloured (Highlight.paint line) = line ∧
      ∀ tokens, tokenize line = .ok tokens →
        ∃ found, Highlight.stretches (Highlight.paint line) = some found ∧
          List.Forall₂ (fun (t : Token) (s : Highlight.Stretch) =>
            Highlight.colour? t.kind = some s.colour ∧ t.span.Cuts line s.text)
            (tokens.filter fun t => t.kind.InColour) found) :=
  ⟨fun _ => Highlight.paint_of_error, fun _ => Highlight.stitched_paint, fun hline =>
    ⟨Highlight.uncoloured_paint hline, fun _ htokens =>
      (Highlight.stitched_paint htokens).exists_stretches hline⟩⟩

/-- A truth value, a string with a character of two bytes, and a comment behind it. -/
theorem paint_exact_commented :
    '\x1b' ∉ "true '\u00e9'//1".toList ∧
      tokenize "true '\u00e9'//1" = .ok [⟨.identifier "true", ⟨0, 4⟩⟩, ⟨.text "\u00e9", ⟨5, 9⟩⟩,
        Token.endAt 12] ∧
      Highlight.Stitched "true '\u00e9'//1" 0
        [⟨.identifier "true", ⟨0, 4⟩⟩, ⟨.text "\u00e9", ⟨5, 9⟩⟩, Token.endAt 12]
        (Highlight.paint "true '\u00e9'//1").toList ∧
      Highlight.uncoloured (Highlight.paint "true '\u00e9'//1") = "true '\u00e9'//1" ∧
      Highlight.stretches (Highlight.paint "true '\u00e9'//1") =
        some [⟨"\x1b[33m", "true"⟩, ⟨"\x1b[32m", "'\u00e9'"⟩] := by
  have hline : '\x1b' ∉ "true '\u00e9'//1".toList := by decide
  obtain ⟨tokens, hscanned, rfl⟩ : ∃ tokens,
      Scanned 0 ['t', 'r', 'u', 'e', ' ', '\'', '\u00e9', '\'', '/', '/', '1'] tokens ∧
      tokens = [⟨.identifier "true", ⟨0, 4⟩⟩, ⟨.text "\u00e9", ⟨5, 9⟩⟩, Token.endAt 12] :=
    ⟨_, .token rfl <| .blank rfl <| .token rfl <| .blank rfl .nil, rfl⟩
  have htokens : tokenize "true '\u00e9'//1" = _ := tokenize_ofList_eq_ok_iff.mpr hscanned
  obtain ⟨-, hstitched, hcolour⟩ := paint_exact "true '\u00e9'//1"
  obtain ⟨huncoloured, hstretches⟩ := hcolour hline
  obtain ⟨found, hfound, hall⟩ := hstretches _ htokens
  have htrue : Span.Cuts ⟨0, 4⟩ "true '\u00e9'//1" "true" := ⟨"", " '\u00e9'//1", by decide, rfl⟩
  have htext : Span.Cuts ⟨5, 9⟩ "true '\u00e9'//1" "'\u00e9'" := ⟨"true ", "//1", by decide, rfl⟩
  obtain ⟨⟨colour, text⟩, rest, ⟨hcolour, hfirst⟩, hrest, rfl⟩ :=
    List.forall₂_cons_left_iff.mp hall
  obtain ⟨⟨colour', text'⟩, rest', ⟨hcolour', hsecond⟩, hnone, rfl⟩ :=
    List.forall₂_cons_left_iff.mp hrest
  cases hcolour
  cases hcolour'
  cases hfirst.unique htrue
  cases hsecond.unique htext
  cases hnone
  exact ⟨hline, htokens, hstitched _ htokens, huncoloured, hfound⟩

end ScopeScript
