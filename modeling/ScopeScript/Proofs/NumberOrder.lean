import ScopeScript.Proofs.DoubleBits
import ScopeScript.Proofs.Numerals

/-!
# The order of doubles

Doubles are compared as **codes with a sign** (`ScopeScript.Binary64.compare_eq_order?`). A code is
made of a scale and a significand, with the scale in front, so codes are ordered as the magnitudes
that they stand for; and with its sign a code is a whole number, the same for both zeros. What is
not a number has none, and compares with nothing. So equality and the order of numbers are those of
whole numbers (`ScopeScript.Binary64.beq_iff`, `ScopeScript.Binary64.lt_iff`,
`ScopeScript.Binary64.le_iff`).

Numbers that are printed alike are equal, and the other way round
(`ScopeScript.Binary64.write_eq_iff`): the digits of a number are a numeral that denotes it.
-/

namespace ScopeScript.Binary64

open Float.Model (UnpackedFloat)

variable {n m : Nat} {a b : Bool} {x y : Float}

/-! ### Codes with a sign -/

/-- A code **with a sign**. -/
def signed : Bool → Nat → Int
  | true, n => -n
  | false, n => n

/-- The **rank** of a number: its code, with its sign. -/
def rank (x : Float) : Int :=
  signed (isNegative x) (code x)

/-- A code at a **higher scale** is the greater one: a significand fits in two binades, and above
the lowest scale it fills one. -/
theorem lt_of_scale_lt (h : scale n < scale m) : n < m := by
  have hn : significand n < 2 * binadeSize := by
    unfold significand
    have := Nat.mod_lt n (show 0 < binadeSize by decide)
    split <;> omega
  have hm : binadeSize ≤ significand m := by
    unfold significand
    split
    · next hlow =>
      have hzero : scale m = 0 := by rw [scale, Nat.div_eq_of_lt hlow]
      exact absurd (hzero ▸ h) (Nat.not_lt_zero _)
    · exact Nat.le_add_right ..
  have hscales := Nat.mul_le_mul_right binadeSize (Nat.succ_le_of_lt h)
  rw [Nat.succ_mul] at hscales
  rw [← scale_mul_add_significand n, ← scale_mul_add_significand m]
  omega

theorem compare_strictMono {α β : Type*} [LinearOrder α] [LinearOrder β] {f : α → β}
    (hf : StrictMono f) (i j : α) : compare (f i) (f j) = compare i j := by
  rw [← cmp_eq_compare, ← cmp_eq_compare, hf.cmp_map_eq]

/-- Codes are ordered **by their scales and then by their significands**. -/
theorem compare_scale_significand (n m : Nat) :
    (compare (scale n : Int) (scale m)).then (compare (significand n) (significand m)) =
      compare n m := by
  rw [compare_strictMono Int.natCast_strictMono]
  rcases lt_trichotomy (scale n) (scale m) with h | h | h
  · rw [compare_lt_iff_lt.mpr h, compare_lt_iff_lt.mpr (lt_of_scale_lt h)]
    rfl
  · -- at one scale the significands differ as the codes do
    have hadd : StrictMono fun k => scale m * binadeSize + k := fun i j hij => by simpa using hij
    rw [compare_eq_iff_eq.mpr h, Ordering.eq_then, ← compare_strictMono hadd, ← h,
      scale_mul_add_significand, h, scale_mul_add_significand]
  · rw [compare_gt_iff_gt.mpr h, compare_gt_iff_gt.mpr (lt_of_scale_lt h)]
    rfl

theorem isNaN_iff : x.isNaN ↔ infinityCode < code x := by
  rw [Float.isNaN, Float.Model.isNaN, unpack_toModel, unpacked]
  split
  · next h => simp [UnpackedFloat.isNaN, h]
  split
  · next h => simp [UnpackedFloat.isNaN, h]
  split
  · next h => simp [UnpackedFloat.isNaN, h]
  · next h _ _ => simpa [UnpackedFloat.isNaN] using h

/-- What a sign and a code stand for, **if that is a number**. -/
theorem unpacked_cases (hn : n ≤ infinityCode) :
    (n = infinityCode ∧ ∀ s, unpacked s n = .infinity s) ∨ (n = 0 ∧ ∀ s, unpacked s n = .zero s) ∨
      (0 < n ∧ n < infinityCode ∧ ∃ h, ∀ s,
        unpacked s n = .finite s (significand n) (scale n - 1074) h) := by
  by_cases hinfinite : n = infinityCode
  · refine .inl ⟨hinfinite, fun s => ?_⟩
    rw [unpacked, if_neg (Nat.not_lt.mpr hn), if_pos hinfinite]
  by_cases hzero : n = 0
  · refine .inr (.inl ⟨hzero, fun s => ?_⟩)
    rw [unpacked, if_neg (Nat.not_lt.mpr hn), if_neg hinfinite, dif_pos hzero]
  · refine .inr (.inr ⟨Nat.pos_of_ne_zero hzero, lt_of_le_of_ne hn hinfinite,
      significand_pos hzero, fun s => ?_⟩)
    rw [unpacked, if_neg (Nat.not_lt.mpr hn), if_neg hinfinite, dif_neg hzero]

/-- Numbers that are neither infinite nor zero are compared **by sign, scale and significand**. -/
theorem compare_finite (hn : 0 < n) (hm : 0 < m) (hpos : 0 < significand n)
    (hpos' : 0 < significand m) :
    (UnpackedFloat.finite (sign a) (significand n) (scale n - 1074) hpos).compare
        (.finite (sign b) (significand m) (scale m - 1074) hpos') =
      some (compare (signed a n) (signed b m)) := by
  have hscale : compare ((scale n : Int) - 1074) (scale m - 1074) =
      compare (scale n : Int) (scale m) :=
    @compare_strictMono _ _ _ _ (fun i : Int => i - 1074) (fun i j hij => by simpa using hij) _ _
  have hcodes : compare (n : Int) m = compare n m := compare_strictMono Int.natCast_strictMono n m
  cases a <;> cases b
  case false.false =>
    refine congrArg some ?_
    rw [hscale, compare_scale_significand]
    exact hcodes.symm
  case false.true => exact congrArg some (compare_gt_iff_gt.mpr (by simp only [signed]; omega)).symm
  case true.false => exact congrArg some (compare_lt_iff_lt.mpr (by simp only [signed]; omega)).symm
  case true.true =>
    have hneg : compare (-(n : Int)) (-m) = compare (m : Int) n := by
      rw [← cmp_eq_compare, ← cmp_eq_compare]
      exact StrictAnti.cmp_map_eq (fun _ _ hij => neg_lt_neg hij) _ _
    refine congrArg some ?_
    rw [hscale, compare_scale_significand, ← hcodes]
    exact Std.OrientedCmp.eq_swap.symm.trans hneg.symm

/-- **Numbers are compared as their codes with their signs.** -/
theorem compare_unpacked (hn : n ≤ infinityCode) (hm : m ≤ infinityCode) :
    (unpacked (sign a) n).compare (unpacked (sign b) m) =
      some (compare (signed a n) (signed b m)) := by
  have htop : 0 < infinityCode := by decide
  rcases unpacked_cases hn with ⟨hn, hx⟩ | ⟨hn, hx⟩ | ⟨hpos, hlt, hsig, hx⟩ <;>
  rcases unpacked_cases hm with ⟨hm, hy⟩ | ⟨hm, hy⟩ | ⟨hpos', hlt', hsig', hy⟩ <;>
  rw [hx, hy]
  case inr.inr.inr.inr => exact compare_finite hpos hpos' hsig hsig'
  -- where one of them is infinite or zero, the order can be read off
  all_goals
    clear hx hy
    generalize infinityCode = top at *
    cases a <;> cases b <;> first
    | exact congrArg some (compare_lt_iff_lt.mpr (by simp only [signed]; omega)).symm
    | exact congrArg some (compare_gt_iff_gt.mpr (by simp only [signed]; omega)).symm
    | exact congrArg some (compare_eq_iff_eq.mpr (by simp only [signed]; omega)).symm

/-! ### Equality and order -/

/-- How two doubles **are ordered**: by rank, if both are numbers. -/
def order? (x y : Float) : Option Ordering :=
  if x.isNaN ∨ y.isNaN then none else some (cmp (rank x) (rank y))

theorem order?_of_isNaN (h : x.isNaN ∨ y.isNaN) : order? x y = none :=
  if_pos h

theorem order?_of_not (h : ¬ (x.isNaN ∨ y.isNaN)) : order? x y = some (cmp (rank x) (rank y)) :=
  if_neg h

/-- **Numbers are compared by rank**, and what is not a number compares with nothing. -/
theorem compare_eq_order? (x y : Float) :
    x.toModel.unpack.compare y.toModel.unpack = order? x y := by
  by_cases hx : x.isNaN
  · have hunpack : x.toModel.unpack = .notANumber := UnpackedFloat.isNaN_iff.mp hx
    rw [order?_of_isNaN (.inl hx), hunpack]
    rfl
  by_cases hy : y.isNaN
  · have hunpack : y.toModel.unpack = .notANumber := UnpackedFloat.isNaN_iff.mp hy
    rw [order?_of_isNaN (.inr hy), hunpack]
    cases x.toModel.unpack <;> rfl
  · rw [order?_of_not (not_or.mpr ⟨hx, hy⟩), cmp_eq_compare, unpack_toModel, unpack_toModel]
    exact compare_unpacked (not_lt.mp (mt isNaN_iff.mpr hx)) (not_lt.mp (mt isNaN_iff.mpr hy))

theorem order?_eq_some_iff {o : Ordering} :
    order? x y = some o ↔ ¬ x.isNaN ∧ ¬ y.isNaN ∧ cmp (rank x) (rank y) = o := by
  by_cases hnan : x.isNaN ∨ y.isNaN
  · rw [order?_of_isNaN hnan]
    exact iff_of_false nofun fun h => hnan.elim h.1 h.2.1
  · rw [order?_of_not hnan, Option.some.injEq]
    obtain ⟨hx, hy⟩ := not_or.mp hnan
    exact ⟨fun h => ⟨hx, hy, h⟩, fun h => h.2.2⟩

theorem any_order? {test : Ordering → Bool} :
    (order? x y).any test ↔ ¬ x.isNaN ∧ ¬ y.isNaN ∧ test (cmp (rank x) (rank y)) := by
  rw [Option.any_eq_true]
  constructor
  · rintro ⟨o, ho, htest⟩
    obtain ⟨hx, hy, rfl⟩ := order?_eq_some_iff.mp ho
    exact ⟨hx, hy, htest⟩
  · rintro ⟨hx, hy, htest⟩
    exact ⟨_, order?_eq_some_iff.mpr ⟨hx, hy, rfl⟩, htest⟩

theorem order?_eq_iff : order? x y = some .eq ↔ x == y := by
  rw [← compare_eq_order?]
  exact beq_iff_eq.symm

theorem order?_lt_iff : order? x y = some .lt ↔ x < y := by
  have hlt : x < y ↔ (x.toModel.unpack.compare y.toModel.unpack == some .lt) = true :=
    decide_eq_true_iff
  rw [hlt, ← compare_eq_order?, beq_iff_eq]

/-- Numbers are **equal** if their ranks are. -/
theorem beq_iff : x == y ↔ ¬ x.isNaN ∧ ¬ y.isNaN ∧ rank x = rank y := by
  rw [← order?_eq_iff, order?_eq_some_iff, cmp_eq_eq_iff]

/-- They are **ordered** as their ranks are. -/
theorem lt_iff : x < y ↔ ¬ x.isNaN ∧ ¬ y.isNaN ∧ rank x < rank y := by
  rw [← order?_lt_iff, order?_eq_some_iff, cmp_eq_lt_iff]

theorem le_iff : x ≤ y ↔ ¬ x.isNaN ∧ ¬ y.isNaN ∧ rank x ≤ rank y := by
  have hle : x ≤ y ↔ (x.toModel.unpack.compare y.toModel.unpack).any (·.isLE) = true :=
    decide_eq_true_iff
  rw [hle, compare_eq_order?, any_order?, Ordering.isLE_iff_ne_gt, cmp_eq_gt_iff, not_lt]

/-! ### Printing -/

/-- The **word for a magnitude**: its digits, or the name of infinity. -/
def word (n : Nat) : String :=
  if n = 0 then "0" else NumberStyle.printed.magnitude n

/-- The word for a rank. -/
def signedWord (i : Int) : String :=
  if i < 0 then "-" ++ word i.natAbs else word i.natAbs

/-- Numbers are printed **by rank**. -/
theorem write_eq_signedWord (hx : ¬ x.isNaN) :
    NumberStyle.printed.write x = signedWord (rank x) := by
  rw [NumberStyle.write, if_neg (mt isNaN_iff.mpr hx), signedWord, rank]
  by_cases hzero : code x = 0
  · cases isNegative x <;> simp [hzero, signed, word, NumberStyle.printed]
  · cases isNegative x
    · have hsign : ¬ (code x : Int) < 0 := by omega
      simp [hzero, signed, word, hsign]
    · simp [hzero, signed, word]

theorem write_of_isNaN (hx : x.isNaN) : NumberStyle.printed.write x = "NaN" := by
  rw [NumberStyle.write, if_pos (isNaN_iff.mp hx)]

/-- A word of letters that is not reserved **is a name**. -/
theorem denotes_of_letters {c : Char} {cs : List Char}
    (hletters : (c :: cs).all fun d => IsLetter d)
    (hfree : ∀ k : Keyword, c :: cs ≠ k.spelling.toList) :
    Lexeme.Denotes (c :: cs) (.identifier (String.ofList (c :: cs))) := by
  rw [List.all_cons, Bool.and_eq_true, List.all_eq_true] at hletters
  exact .name (mem_word.mpr ⟨c, cs, rfl, of_decide_eq_true hletters.1, fun d hd =>
    .inl (of_decide_eq_true (hletters.2 d hd))⟩) hfree

/-- What the word for a magnitude **denotes**: the magnitude, unless it is infinite. -/
def magnitudeKind (n : Nat) : Token.Kind :=
  if n = infinityCode then .identifier "Infinity" else .number (ofCode false n)

/-- **The word for a magnitude denotes it**; for infinity it is a name. -/
theorem denotes_word (hn : n ≤ infinityCode) :
    Lexeme.Denotes (word n).toList (magnitudeKind n) := by
  by_cases hinfinite : n = infinityCode
  · rw [hinfinite, magnitudeKind, if_pos rfl]
    exact @denotes_of_letters 'I' ['n', 'f', 'i', 'n', 'i', 't', 'y'] (by decide) fun k => by
      cases k <;> decide
  · have hword : (word n).toList = Decimal.numeral n := by
      rw [word, Decimal.numeral, NumberStyle.magnitude, if_neg hinfinite]
      split
      · rfl
      · exact String.toList_ofList
    rw [hword, magnitudeKind, if_neg hinfinite]
    exact Lexeme.denotes_numeral hn

/-- Neither names nor numbers **begin with a sign**. -/
theorem not_denotes_minus {cs : List Char} {kind : Token.Kind}
    (h : Lexeme.Denotes ('-' :: cs) kind) :
    (∀ name, kind ≠ .identifier name) ∧ ∀ x, kind ≠ .number x := by
  have hfamily (p : Pattern) (hp : '-' :: cs ∈ p.language) : p.family = .sign :=
    (Pattern.family_of_mem hp).symm.trans (by decide)
  generalize hw : '-' :: cs = w at h
  cases h with
  | name hword => cases hfamily .word (hw ▸ hword)
  | number hnumeral => cases hfamily .numeral (hw ▸ hnumeral)
  | keyword | text | operator | mark => exact ⟨nofun, nofun⟩

theorem minus_append_ne_word (hn : n ≤ infinityCode) (s : String) : "-" ++ s ≠ word n := by
  intro h
  have hdenotes := denotes_word hn
  rw [← h, String.toList_append] at hdenotes
  obtain ⟨hname, hnumber⟩ := not_denotes_minus hdenotes
  rw [magnitudeKind] at hname hnumber
  split at hname
  · exact hname _ rfl
  · next hfinite => exact hnumber _ (if_neg hfinite)

/-- Different magnitudes **have different words**. -/
theorem word_injective (hn : n ≤ infinityCode) (hm : m ≤ infinityCode) (h : word n = word m) :
    n = m := by
  have hkind := (h ▸ denotes_word hn).unique (denotes_word hm)
  rw [magnitudeKind, magnitudeKind] at hkind
  split at hkind
  · next hinfinite =>
    split at hkind
    · next hinfinite' => rw [hinfinite, hinfinite']
    · cases hkind
  · split at hkind
    · cases hkind
    · rw [← code_ofCode hn, ← code_ofCode hm, Token.Kind.number.inj hkind]

theorem natAbs_rank_le (hx : ¬ x.isNaN) : (rank x).natAbs ≤ infinityCode := by
  have hcode := not_lt.mp (mt isNaN_iff.mpr hx)
  rw [rank]
  cases isNegative x <;> simp only [signed] <;> omega

/-- Different ranks have different words. -/
theorem signedWord_injective {i j : Int} (hi : i.natAbs ≤ infinityCode)
    (hj : j.natAbs ≤ infinityCode) (h : signedWord i = signedWord j) : i = j := by
  rw [signedWord, signedWord] at h
  split at h <;> split at h
  · have := word_injective hi hj ((String.append_right_inj _).mp h)
    omega
  · exact absurd h (minus_append_ne_word hj _)
  · exact absurd h.symm (minus_append_ne_word hi _)
  · have := word_injective hi hj h
    omega

/-- No word for a rank is the one for **what is not a number**. -/
theorem signedWord_ne {i : Int} (hi : i.natAbs ≤ infinityCode) : signedWord i ≠ "NaN" := by
  rw [signedWord]
  split
  · intro h
    have hchars := congrArg String.toList h
    rw [String.toList_append] at hchars
    exact absurd (List.cons.inj hchars).1 (by decide)
  · intro h
    have hname : Lexeme.Denotes "NaN".toList (.identifier "NaN") :=
      @denotes_of_letters 'N' ['a', 'N'] (by decide) fun k => by cases k <;> decide
    have hkind := (h ▸ denotes_word hi).unique hname
    rw [magnitudeKind] at hkind
    split at hkind
    · exact absurd (Token.Kind.identifier.inj hkind) (by decide)
    · cases hkind

/-- **Numbers are printed alike** if they are equal, and only then; what is not a number is printed
as nothing else is. -/
theorem write_eq_iff :
    NumberStyle.printed.write x = NumberStyle.printed.write y ↔
      x == y ∨ (x.isNaN ∧ y.isNaN) := by
  rw [beq_iff]
  by_cases hx : x.isNaN <;> by_cases hy : y.isNaN
  · exact iff_of_true (by rw [write_of_isNaN hx, write_of_isNaN hy]) (.inr ⟨hx, hy⟩)
  · rw [write_of_isNaN hx, write_eq_signedWord hy]
    refine iff_of_false (signedWord_ne (natAbs_rank_le hy)).symm ?_
    rintro (h | h)
    · exact h.1 hx
    · exact hy h.2
  · rw [write_of_isNaN hy, write_eq_signedWord hx]
    refine iff_of_false (signedWord_ne (natAbs_rank_le hx)) ?_
    rintro (h | h)
    · exact h.2.1 hy
    · exact hx h.1
  · rw [write_eq_signedWord hx, write_eq_signedWord hy]
    constructor
    · intro h
      exact .inl ⟨hx, hy, signedWord_injective (natAbs_rank_le hx) (natAbs_rank_le hy) h⟩
    · rintro (⟨-, -, h⟩ | h)
      · rw [h]
      · exact absurd h.1 hx

end ScopeScript.Binary64
