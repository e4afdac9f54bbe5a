import ScopeScript.Interpreter
import ScopeScript.Proofs.Concatenation
import ScopeScript.Proofs.DoubleBits
import ScopeScript.Proofs.Numerals

/-!
# Printed numbers

**What a finite number is printed as reads back as the number** (`ScopeScript.printed_reads_back`).
The text is the digits of its magnitude, which are one token, behind a minus if the number is below
zero. The minus is a token of its own, and a program of both changes the sign of the magnitude when
it is run, which gives the number again, bit for bit. Only the sign of zero is lost.
-/

namespace ScopeScript

open Binary64

variable {x : Float}

/-! ### Texts -/

/-- The **magnitude** of a number: the same code without the sign. -/
def Binary64.magnitude (x : Float) : Float :=
  ofCode false (code x)

/-- **How a finite number is written**: the digits of its magnitude, behind a minus if it is below
zero. The zero that has a sign has a word of its own. -/
theorem NumberStyle.write_eq (style : NumberStyle) (hx : x.isFinite) :
    style.write x = if x < 0 then "-" ++ String.ofList (Decimal.numeral (code x))
      else if isNegative x then style.negativeZero
      else String.ofList (Decimal.numeral (code x)) := by
  have hcode := isFinite_iff.mp hx
  rw [NumberStyle.write, if_neg hcode.not_gt, NumberStyle.magnitude, if_neg hcode.ne]
  by_cases hzero : code x = 0
  · have hlt : ¬ x < 0 := fun h => ((lt_zero_iff hx).mp h).2 hzero
    rw [if_pos hzero, if_neg hlt, hzero]
    rfl
  · rw [if_neg hzero, Decimal.numeral, if_neg hzero]
    by_cases hnegative : isNegative x
    · rw [if_pos hnegative, if_pos ((lt_zero_iff hx).mpr ⟨hnegative, hzero⟩)]
    · rw [if_neg hnegative, if_neg fun h => hnegative ((lt_zero_iff hx).mp h).1, if_neg hnegative]

theorem printed_eq (hx : x.isFinite) : NumberStyle.printed.write x =
    (if x < 0 then "-" else "") ++ String.ofList (Decimal.numeral (code x)) := by
  rw [NumberStyle.write_eq _ hx]
  split
  · rfl
  · next hlt =>
    rw [String.empty_append]
    split
    · next hnegative =>
      -- a zero whose sign is set is printed without it
      have hzero : code x = 0 := by
        by_contra hne
        exact hlt ((lt_zero_iff hx).mpr ⟨hnegative, hne⟩)
      rw [hzero]
      rfl
    · rfl

/-! ### Programs -/

/-- A minus in front of a lexeme is **a token of its own**. -/
theorem Scanned.minus {cs : List Char} {pos : Nat} {tokens : List Token}
    (h : Scanned (pos + 1) cs tokens) :
    Scanned pos ('-' :: cs) (⟨.operator .minus, ⟨pos, pos + 1⟩⟩ :: tokens) :=
  @token pos '-' cs _ ['-'] cs tokens rfl h

/-- A single operand is **a program by itself**. -/
theorem Program.spelled_of_unary {e : Expr} {ts : List Token} {span : Span}
    (h : Derives (nestingLimit - 1) (.unary e) ts [⟨.endOfInput, span⟩])
    (hprint : ¬ Parser.NextIs (.keyword .print) ts) : Program.Spelled ⟨[.expression e]⟩ ts := by
  have hexpression := (Derives.loosest (.tightest h) (Nat.le_refl _)).expression .atEnd
  exact ⟨span, .moreStatements (.plain (.expressionAlone hexpression hprint)) .noStatements⟩

theorem executeAll_expression {opts : Options} {call : Caller} {turns : Nat} {site : Site}
    {last v : Value} {e : Expr} {st : State} (h : evaluate call site e st = .done v st) :
    executeAll opts call turns site last [.expression e] st = .done (.normal v) st := by
  simp [executeAll, execute, h, Outcome.andThen]

/-- **What a single expression comes to** is what the program comes to. -/
theorem Interpreter.runSource_expression {it : Interpreter} {bounds : Bounds} {source : String}
    {e : Expr} {v : Value} (hp : Program.ofSource source = .ok ⟨[.expression e]⟩)
    (he : ∀ call site st, evaluate call site e st = .done v st) :
    it.runSource bounds source = some (.ok v, it.nextText.2) := by
  simp only [Interpreter.runSource, hp, Interpreter.run, Interpreter.perform,
    Interpreter.executeAll, Eval.bind_apply, executeAll_expression (he _ _ _)]
  rfl

/-! ### Reading back -/

/-- The **sign in front of the magnitude** gives the number, unless it is the zero with a sign. -/
theorem signed_magnitude (hx : x.isFinite) :
    (if x < 0 then -magnitude x else magnitude x) = if x = -0 then 0 else x := by
  have hnegzero : (-0 : Float) = ofCode true 0 := by decide
  have hcode := (isFinite_iff.mp hx).le
  by_cases hnegative : isNegative x
  · have hx' : ofCode true (code x) = x := hnegative ▸ ofCode_isNegative_code x
    by_cases hzero : code x = 0
    · have heq : x = -0 := by rw [← hx', hzero, hnegzero]
      rw [if_neg fun hlt => ((lt_zero_iff hx).mp hlt).2 hzero, if_pos heq, magnitude, hzero,
        zero_eq_ofCode]
    · have hne : x ≠ -0 := by
        rw [hnegzero]
        rintro rfl
        exact hzero (code_ofCode (Nat.zero_le _))
      rw [if_pos ((lt_zero_iff hx).mpr ⟨hnegative, hzero⟩), if_neg hne, magnitude,
        neg_ofCode hcode, Bool.not_false, hx']
  · have hne : x ≠ -0 := by
      rw [hnegzero]
      rintro rfl
      exact hnegative (isNegative_ofCode (Nat.zero_le _))
    have hpositive := Bool.eq_false_iff.mpr hnegative
    have hx' : ofCode false (code x) = x := hpositive ▸ ofCode_isNegative_code x
    rw [if_neg fun hlt => hnegative ((lt_zero_iff hx).mp hlt).1, if_neg hne, magnitude, hx']

/-- The **tokens and the program** that a finite number is printed as. -/
theorem exists_scanned_printed (hx : x.isFinite) : ∃ tokens e,
    Scanned 0 (NumberStyle.printed.write x).toList tokens ∧
      Program.Spelled ⟨[.expression e]⟩ tokens ∧
      tokens.map Token.kind =
        (if x < 0 then [.operator .minus] else []) ++ [.number (magnitude x), .endOfInput] ∧
      ∀ call site st, evaluate call site e st =
        .done (.number (if x < 0 then -magnitude x else magnitude x)) st := by
  obtain ⟨c, cs, hnumeral, hcut⟩ := (Lexeme.denotes_numeral (isFinite_iff.mp hx).le).first_eq
  have hnumber (pos : Nat) : Scanned pos (c :: cs) (⟨.number (magnitude x), _⟩ :: _) :=
    .token hcut .nil
  rw [printed_eq hx, hnumeral, String.toList_append, String.toList_ofList]
  by_cases hlt : x < 0
  · simp only [if_pos hlt]
    refine ⟨_, _, .minus (hnumber 1),
      Program.spelled_of_unary (.signed rfl (.unsigned (.callee .number))) ?_, rfl,
      fun _ _ _ => rfl⟩
    rintro ⟨_, _, ⟨⟩⟩
  · simp only [if_neg hlt]
    refine ⟨_, _, hnumber 0, Program.spelled_of_unary (.unsigned (.callee .number)) ?_, rfl,
      fun _ _ _ => rfl⟩
    rintro ⟨_, _, ⟨⟩⟩

/-- **Printed numbers read back.** The text of a finite number is one token for its magnitude, with
a minus before it exactly if the number is below zero. Run as a program, by any interpreter, it
gives a number that is equal to the one printed and has the same bits; only the zero with a sign
comes back without it. -/
theorem printed_reads_back (hx : x.isFinite) :
    (∃ tokens, tokenize (NumberStyle.printed.write x) = .ok tokens ∧ tokens.map Token.kind =
      (if x < 0 then [.operator .minus] else []) ++ [.number (magnitude x), .endOfInput]) ∧
    ∀ (it : Interpreter) (bounds : Bounds), ∃ y,
      it.runSource bounds (NumberStyle.printed.write x) = some (.ok (.number y), it.nextText.2) ∧
        (y == x) = true ∧ y.toBits = if x = -0 then (0 : Float).toBits else x.toBits := by
  obtain ⟨tokens, e, hscanned, hspelled, hkinds, hvalue⟩ := exists_scanned_printed hx
  rw [signed_magnitude hx] at hvalue
  refine ⟨⟨tokens, tokensFrom_eq_ok_iff.mpr hscanned, hkinds⟩, fun it bounds => ⟨_,
    Interpreter.runSource_expression (hscanned.ofSource_eq hspelled) hvalue, ?_, ?_⟩⟩
  · split
    · next heq =>
      rw [heq]
      decide
    · exact beq_self hx
  · split <;> rfl

/-- A number below zero that has places behind the point only. -/
theorem printed_reads_back_below_zero : (ofCode true 0x3F1A36E2EB1C432D).isFinite = true ∧
    (∃ tokens, tokenize (NumberStyle.printed.write (ofCode true 0x3F1A36E2EB1C432D)) = .ok tokens ∧
      tokens.map Token.kind =
        [.operator .minus, .number (ofCode false 0x3F1A36E2EB1C432D), .endOfInput]) ∧
    ∀ (it : Interpreter) (bounds : Bounds), ∃ y,
      it.runSource bounds (NumberStyle.printed.write (ofCode true 0x3F1A36E2EB1C432D)) =
        some (.ok (.number y), it.nextText.2) ∧ y.toBits = 0xBF1A36E2EB1C432D := by
  have hfinite : (ofCode true 0x3F1A36E2EB1C432D).isFinite = true := by decide
  have hlt : ofCode true 0x3F1A36E2EB1C432D < 0 := by decide
  have hmagnitude :
      magnitude (ofCode true 0x3F1A36E2EB1C432D) = ofCode false 0x3F1A36E2EB1C432D := by
    decide
  obtain ⟨⟨tokens, htokens, hkinds⟩, hruns⟩ := printed_reads_back hfinite
  rw [if_pos hlt, hmagnitude] at hkinds
  refine ⟨hfinite, ⟨tokens, htokens, hkinds⟩, fun it bounds => ?_⟩
  obtain ⟨y, hrun, -, hbits⟩ := hruns it bounds
  refine ⟨y, hrun, hbits.trans ?_⟩
  decide

end ScopeScript
