import ScopeScript.Proofs.BracketMatching
import ScopeScript.Proofs.NodeText
import ScopeScript.Proofs.PlainGrammar
import ScopeScript.Text.WhiteSpace

/-!
# Complete input

The console waits for more input while brackets are open, and complains of a wrong bracket before
anything is parsed. **This never stands in the way of a program**
(`ScopeScript.verdict_of_program`): an input that is a program, white space at its ends aside, is
complete, and an input that is complained of cannot be continued to a program.

Three facts meet here. The brackets of a program match (`ScopeScript.Generates.balanced`), because
each rule of the grammar closes what it opens. A wrong bracket stays wrong, whatever is entered
behind it (`ScopeScript.Verdict.scan_append_of_unmatched`). And white space at the ends changes
nothing (`ScopeScript.Verdict.ofInput_eq_complete_of_trim`); there is something to show even for
this, since the verdict looks one character ahead, and since a comment goes on up to the end of its
line.
-/

namespace ScopeScript

/-! ### The brackets of a program -/

/-- **Balanced tokens**: whatever is open, behind them the same is open. -/
def Balanced (u : List Token.Kind) : Prop :=
  ∀ opened, matchBrackets opened u = some opened

namespace Balanced

variable {k : Token.Kind} {u v : List Token.Kind}

theorem nil : Balanced [] :=
  fun _ => rfl

theorem append (hu : Balanced u) (hv : Balanced v) : Balanced (u ++ v) := fun opened => by
  rw [matchBrackets_append, hu, Option.bind_some, hv]

/-- A token that is **no bracket** may stand in front. -/
theorem cons (hk : ∀ opened, k.onBrackets opened = some opened) (hu : Balanced u) :
    Balanced (k :: u) := fun opened => by
  rw [matchBrackets_cons, hk, Option.bind_some, hu]

/-- What is no mark is **no bracket**. -/
theorem cons_of_ne (hk : ∀ m, k ≠ .mark m) (hu : Balanced u) : Balanced (k :: u) := by
  refine cons (fun opened => ?_) hu
  cases k with
  | mark m => exact absurd rfl (hk m)
  | _ => rfl

/-- Tokens **between brackets** of a sort. -/
theorem enclosed (b : Bracket) (hu : Balanced u) :
    Balanced (.mark b.opening :: u ++ [.mark b.closing]) := fun opened => by
  rw [List.cons_append, matchBrackets_cons, Token.Kind.onBrackets_opening, Option.bind_some,
    matchBrackets_append, hu, Option.bind_some, matchBrackets_cons, Token.Kind.onBrackets_closing,
    Bracket.close_eq_some_iff.mpr rfl]
  rfl

end Balanced

/-- **Each phrase closes the brackets that it opens**, and no other. -/
theorem Generates.balanced {p : Nonterminal} {u : List Token.Kind} (h : Generates p u) :
    Balanced u := by
  induction h with
  | single h => exact .cons_of_ne (by rintro m rfl; cases h) .nil
  | parentheses _ ih => exact .enclosed .parenthesis ih
  | application _ _ ihf ihargs =>
    rw [List.append_assoc]
    exact ihf.append (.enclosed .parenthesis ihargs)
  | signed hop _ ih => exact .cons_of_ne (by rintro m rfl; cases hop) ih
  | operation hop _ _ iha ihb =>
    exact iha.append (.cons_of_ne (by rintro m rfl; cases hop) ihb)
  | moreExpressions _ _ ih ihs => exact ih.append (.cons (fun _ => rfl) ihs)
  | noArguments | noParameters | noStatements => exact .nil
  | oneName => exact .cons (fun _ => rfl) .nil
  | moreNames _ ih => exact .cons (fun _ => rfl) (.cons (fun _ => rfl) ih)
  | declare => exact .cons (fun _ => rfl) (.cons (fun _ => rfl) .nil)
  | declareAs _ ih =>
    exact .cons (fun _ => rfl) (.cons (fun _ => rfl) (.cons (fun _ => rfl) ih))
  | print _ ih | exit _ ih => exact .cons (fun _ => rfl) ih
  | conditional _ _ ihtest ihb | loop _ _ ihtest ihb =>
    exact .cons (fun _ => rfl) (ihtest.append ihb)
  | alternative _ _ _ ihtest ihb ihc =>
    exact .append (.cons (fun _ => rfl) (ihtest.append ihb)) (.cons (fun _ => rfl) ihc)
  | function _ _ ihparams ihb =>
    have henclosed := (Balanced.enclosed .parenthesis ihparams).append ihb
    rw [List.append_assoc] at henclosed
    exact .cons (fun _ => rfl) (.cons (fun _ => rfl) henclosed)
  | terminated _ ih => exact ih.append (.cons (fun _ => rfl) .nil)
  | block _ ih => exact .enclosed .brace ih
  | moreStatements _ _ ih ihs => exact ih.append ihs
  | callee _ ih | unsigned _ ih | tightest _ ih | operand _ _ ih | expression _ ih
    | oneExpression _ ih | someArguments _ ih | someParameters _ ih | blockAlone _ ih
    | expressionAlone _ _ ih | plain _ ih => exact ih

/-! ### Reading on -/

namespace Verdict

variable {mode : Mode} {opened : List Char} {pos : Nat} {c : Char} {cs back more : List Char}

/-- **What one character does**: either it is told as a wrong bracket, or the reading goes on behind
it. What follows matters only in so far as a stroke comes next, and the place does not matter. -/
theorem scan_step (mode : Mode) (opened : List Char) (c : Char) (next : Prop) :
    (∀ pos cs, scan mode opened pos (c :: cs) = unmatched c pos) ∨
      ∃ mode' opened', ∀ pos cs, (cs.head? = some '/' ↔ next) →
        scan mode opened pos (c :: cs) = scan mode' opened' (pos + c.utf8Size) cs := by
  cases mode with
  | code =>
    by_cases hclosing : c = ')' ∨ c = '\x7d'
    · rcases opened with _ | ⟨o, rest⟩
      · refine .inl fun pos cs => ?_
        rcases hclosing with rfl | rfl <;> rfl
      · have hscan : ∀ pos cs, scan .code (o :: rest) pos (c :: cs) =
            if o = opening c then scan .code rest (pos + c.utf8Size) cs else unmatched c pos := by
          rcases hclosing with rfl | rfl <;> exact fun _ _ => rfl
        by_cases ho : o = opening c
        · exact .inr ⟨.code, rest, fun pos cs _ => (hscan pos cs).trans (if_pos ho)⟩
        · exact .inl fun pos cs => (hscan pos cs).trans (if_neg ho)
    · by_cases hquote : c = '"' ∨ c = '\x27'
      · exact .inr ⟨.literal c, opened, fun pos cs _ => by simp only [scan, if_pos hquote]⟩
      by_cases hcomment : c = '/' ∧ next
      · refine .inr ⟨.comment, opened, fun pos cs hnext => ?_⟩
        rw [← hnext] at hcomment
        simp only [scan, if_neg hquote, if_pos hcomment]
      by_cases hopening : c = '(' ∨ c = '\x7b'
      · refine .inr ⟨.code, c :: opened, fun pos cs hnext => ?_⟩
        rw [← hnext] at hcomment
        simp only [scan, if_neg hquote, if_neg hcomment, if_pos hopening]
      · refine .inr ⟨.code, opened, fun pos cs hnext => ?_⟩
        rw [← hnext] at hcomment
        simp only [scan, if_neg hquote, if_neg hcomment, if_neg hopening, if_neg hclosing]
  | comment | literal | escape => exact .inr ⟨_, _, fun _ _ _ => rfl⟩

theorem scan_nil_ne_unmatched {p : Nat} : scan mode opened pos [] ≠ unmatched c p := by
  by_cases h : opened = [] <;> cases mode <;> simp [scan, h]

/-- **A wrong bracket stays wrong**, whatever is entered behind it. -/
theorem scan_append_of_unmatched {p : Nat} (h : scan mode opened pos cs = unmatched c p)
    (more : List Char) : scan mode opened pos (cs ++ more) = unmatched c p := by
  induction cs generalizing mode opened pos with
  | nil => exact absurd h scan_nil_ne_unmatched
  | cons d cs ih =>
    rcases scan_step mode opened d (cs.head? = some '/') with hstep | ⟨mode', opened', hstep⟩
    · rw [hstep] at h
      rw [List.cons_append, hstep, h]
    · rw [hstep pos cs Iff.rfl] at h
      have hcs : cs ≠ [] := by
        rintro rfl
        exact scan_nil_ne_unmatched h
      rw [List.cons_append, hstep pos _ (by rw [List.head?_append_of_ne_nil _ hcs])]
      exact ih h

/-! ### White space at the ends -/

theorem scan_nil_eq_complete_iff :
    scan mode opened pos [] = complete ↔ (mode = .code ∨ mode = .comment) ∧ opened = [] := by
  cases mode <;> simp [scan]

/-- **White space behind a complete text** leaves it complete, in a comment too: it may end that. -/
theorem scan_whiteSpace (h : ∀ c ∈ back, Text.isWhiteSpace c)
    (hmode : mode = .code ∨ mode = .comment) : scan mode [] pos back = complete := by
  induction back generalizing mode pos with
  | nil => exact scan_nil_eq_complete_iff.mpr ⟨hmode, rfl⟩
  | cons c back ih =>
    obtain ⟨hc, hback⟩ := List.forall_mem_cons.mp h
    rcases hmode with rfl | rfl
    · rw [scan_plain (not_mem_marked (p := Text.isWhiteSpace) (by decide) hc)]
      exact ih hback (.inl rfl)
    · rw [scan]
      split
      · exact ih hback (.inl rfl)
      · exact ih hback (.inr rfl)

/-- A text that is complete is complete **wherever it stands, and with white space behind it**. -/
theorem scan_append_whiteSpace (h : scan mode opened pos cs = complete)
    (hback : ∀ c ∈ back, Text.isWhiteSpace c) (pos' : Nat) :
    scan mode opened pos' (cs ++ back) = complete := by
  induction cs generalizing mode opened pos pos' with
  | nil =>
    obtain ⟨hmode, rfl⟩ := scan_nil_eq_complete_iff.mp h
    exact scan_whiteSpace hback hmode
  | cons c cs ih =>
    rcases scan_step mode opened c (cs.head? = some '/') with hstep | ⟨mode', opened', hstep⟩
    · rw [hstep] at h
      contradiction
    · rw [hstep pos cs Iff.rfl] at h
      -- no comment begins with a stroke at the end and white space behind it
      have hnext : (cs ++ back).head? = some '/' ↔ cs.head? = some '/' := by
        cases cs with
        | nil =>
          refine iff_of_false (fun hslash => ?_) (by simp)
          exact absurd (hback _ (List.mem_of_mem_head? hslash)) (by decide)
        | cons => rfl
      rw [List.cons_append, hstep pos' _ hnext]
      exact ih h _

end Verdict

/-- What is trimmed from a text is **white space at its ends**. -/
theorem Text.exists_trim (cs : List Char) :
    ∃ front back, cs = front ++ (trim cs ++ back) ∧ (∀ c ∈ front, isWhiteSpace c) ∧
      ∀ c ∈ back, isWhiteSpace c := by
  refine ⟨cs.takeWhile isWhiteSpace,
    ((cs.dropWhile isWhiteSpace).reverse.takeWhile isWhiteSpace).reverse, ?_,
    fun c => List.mem_takeWhile_imp, fun c hc => List.mem_takeWhile_imp (List.mem_reverse.mp hc)⟩
  rw [trim, trimEnd, ← List.reverse_append, List.takeWhile_append_dropWhile, List.reverse_reverse,
    List.takeWhile_append_dropWhile]

/-- Only the text **without the white space at its ends** matters for being complete. -/
theorem Verdict.ofInput_eq_complete_of_trim {input : String}
    (h : Verdict.ofInput (String.ofList (Text.trim input.toList)) = .complete) :
    Verdict.ofInput input = .complete := by
  obtain ⟨front, back, hinput, hfront, hback⟩ := Text.exists_trim input.toList
  rw [ofInput, String.toList_ofList] at h
  rw [ofInput, hinput, scan_run fun c hc =>
    not_mem_marked (p := Text.isWhiteSpace) (by decide) (hfront c hc)]
  exact scan_append_whiteSpace h hback _

/-! ### Programs at the console -/

/-- **A program is complete.** -/
theorem Verdict.ofInput_eq_complete_of_program {source : String} {p : Program}
    (h : Program.ofSource source = .ok p) : Verdict.ofInput source = .complete := by
  obtain ⟨tokens, stop, hscanned, hderives⟩ := Program.exists_scanned h
  have hmunches := munches_tokensFrom 0 source.toList
  rw [tokensFrom_eq_ok_iff.mpr hscanned] at hmunches
  obtain ⟨body, hbody, hmunched⟩ := hmunches
  obtain rfl := List.append_inj_left' hbody rfl
  have haccepted : Generates .statements (tokens.map Token.kind) := Accepted.of_derives hderives
  rw [hmunched.ofInput_eq (haccepted.balanced []), if_pos rfl]

/-- **The console never stands in the way of a program.** An input that is a program, when the white
space at its ends is taken away, is complete: it is neither held back nor complained of. And an
input that is complained of does not become a program by whatever is entered behind it. -/
theorem verdict_of_program (input : String) :
    (∀ p, Program.ofSource (String.ofList (Text.trim input.toList)) = .ok p →
      Verdict.ofInput input = .complete) ∧
    ∀ c pos, Verdict.ofInput input = .unmatched c pos → ∀ (more : String) (p : Program),
      Program.ofSource (String.ofList (Text.trim (input ++ more).toList)) ≠ .ok p := by
  have hcomplete (input : String) (p : Program)
      (hp : Program.ofSource (String.ofList (Text.trim input.toList)) = .ok p) :
      Verdict.ofInput input = .complete :=
    Verdict.ofInput_eq_complete_of_trim (Verdict.ofInput_eq_complete_of_program hp)
  refine ⟨hcomplete input, fun c pos hwrong more p hp => ?_⟩
  have hgoes : Verdict.ofInput (input ++ more) = .unmatched c pos := by
    rw [Verdict.ofInput, String.toList_append]
    exact Verdict.scan_append_of_unmatched hwrong _
  cases hgoes.symm.trans (hcomplete _ p hp)

/-- A call with white space at its ends and a comment behind it that opens a bracket, and a call
with one parenthesis too many. -/
theorem verdict_of_program_call :
    (Program.ofSource (String.ofList (Text.trim " f(x) // (\n".toList)) = .ok
        ⟨[.expression (.call (.name "f" ⟨0, 1⟩) [.name "x" ⟨2, 3⟩] ⟨0, 4⟩)]⟩ ∧
      Verdict.ofInput " f(x) // (\n" = .complete) ∧
    Verdict.ofInput "f(x))" = .unmatched ')' 4 ∧ ∀ (more : String) (p : Program),
      Program.ofSource (String.ofList (Text.trim ("f(x))" ++ more).toList)) ≠ .ok p := by
  have htrim : Text.trim " f(x) // (\n".toList =
      ['f', '(', 'x', ')', ' ', '/', '/', ' ', '('] := by
    decide
  obtain ⟨tokens, hscanned, rfl⟩ : ∃ tokens,
      Scanned 0 ['f', '(', 'x', ')', ' ', '/', '/', ' ', '('] tokens ∧
      tokens = [⟨.identifier "f", ⟨0, 1⟩⟩, ⟨.mark .leftParen, ⟨1, 2⟩⟩, ⟨.identifier "x", ⟨2, 3⟩⟩,
        ⟨.mark .rightParen, ⟨3, 4⟩⟩, ⟨.endOfInput, ⟨9, 9⟩⟩] :=
    ⟨_, .token rfl <| .token rfl <| .token rfl <| .token rfl <| .blank rfl <| .blank rfl .nil, rfl⟩
  have hp : Program.ofSource (String.ofList (Text.trim " f(x) // (\n".toList)) = .ok
      ⟨[.expression (.call (.name "f" ⟨0, 1⟩) [.name "x" ⟨2, 3⟩] ⟨0, 4⟩)]⟩ := by
    rw [htrim, Program.ofSource, tokenize_ofList_eq_ok_iff.mpr hscanned]
    rfl
  have hwrong : Verdict.ofInput "f(x))" = .unmatched ')' 4 := by
    decide
  exact ⟨⟨hp, (verdict_of_program _).1 _ hp⟩, hwrong, (verdict_of_program _).2 _ _ hwrong⟩

end ScopeScript
