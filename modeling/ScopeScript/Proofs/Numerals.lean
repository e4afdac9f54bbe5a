import ScopeScript.Proofs.FirstLexeme

/-!
# Numbers as numerals, and back

**The digits that a finite number is written with are a numeral that denotes the number**
(`ScopeScript.Lexeme.denotes_numeral`). Reading rounds once, to the nearest code, and what a code
stands for exactly is rounded to the code itself (`ScopeScript.Binary64.nearestCode_eq`), from the
smallest number to the largest. So all digits of a number read back, and the shortest that do are
found among decimals that were tried; whichever are taken, they read back
(`ScopeScript.Decimal.nearest_shortest_eq`).

The digits are written positionally: some before the point, and as many behind it as the place of
the last digit says (`ScopeScript.Decimal.exists_positional`). So the text has no sign, no exponent
and at most one point, begins with a digit, and spells a decimal that is as near to the number.
-/

namespace ScopeScript

/-! ### Rounding what needs no rounding -/

namespace Binary64

variable {n num den : Nat}

/-- The leading digit of a significand **tells the scale**; below the first binade there is none. -/
theorem log2_quanta (n : Nat) : (quanta n).log2 - 52 = scale n := by
  unfold quanta scale significand
  rw [Nat.shiftLeft_eq]
  split
  · next hn =>
    rw [Nat.div_eq_of_lt hn, Nat.zero_sub, Nat.pow_zero, Nat.mul_one]
    rcases Nat.eq_zero_or_pos n with rfl | hpos
    · rfl
    · have hlog : n.log2 < 52 := (Nat.log2_lt hpos.ne').mpr hn
      omega
  · next hn =>
    have hmod := Nat.mod_lt n (show 0 < binadeSize by decide)
    generalize n / binadeSize - 1 = e
    have hne : (binadeSize + n % binadeSize) * 2 ^ e ≠ 0 :=
      Nat.mul_ne_zero (by unfold binadeSize; omega) (Nat.two_pow_pos e).ne'
    have hlog : ((binadeSize + n % binadeSize) * 2 ^ e).log2 = 52 + e := by
      rw [Nat.log2_eq_iff hne, Nat.pow_add, Nat.add_right_comm, Nat.pow_add]
      constructor
      · exact Nat.mul_le_mul_right _ (Nat.le_add_right ..)
      · exact Nat.mul_lt_mul_of_pos_right (by unfold binadeSize at *; omega) (Nat.two_pow_pos e)
    omega

theorem roundHalfEven_mul (n : Nat) (hden : 0 < den) : roundHalfEven (n * den) den = n := by
  have hlt : compare (2 * (n * den % den)) den = .lt := by
    rw [Nat.mul_mod_left]
    exact Nat.compare_eq_lt.mpr hden
  simp only [roundHalfEven, hlt, Nat.mul_div_cancel _ hden]

/-- A code is **made of its scale and its significand**. -/
theorem scale_mul_add_significand (n : Nat) : scale n * binadeSize + significand n = n := by
  unfold scale significand
  split
  · next hn => rw [Nat.div_eq_of_lt hn, Nat.zero_sub, Nat.zero_mul, Nat.zero_add]
  · next hn =>
    unfold binadeSize at *
    omega

/-- A fraction that is **exactly what a code stands for** is rounded to the code. -/
theorem nearestCode_eq (h : num * stepsPerUnit = quanta n * den) (hden : 0 < den)
    (hn : n ≤ infinityCode) : nearestCode num den = n := by
  have hround : roundHalfEven (quanta n * den) (den <<< scale n) = significand n := by
    rw [quanta, Nat.shiftLeft_eq, Nat.shiftLeft_eq, Nat.mul_assoc, Nat.mul_comm (2 ^ _)]
    exact roundHalfEven_mul _ (Nat.mul_pos hden (Nat.two_pow_pos _))
  simp only [nearestCode, h, Nat.mul_div_cancel _ hden, log2_quanta, hround,
    scale_mul_add_significand, Nat.min_eq_right hn]

end Binary64

namespace Decimal

open Binary64

/-- A step is a unit halved so many times, and **a half is five tenths**: so what a code stands for
has as many places behind the point, with a five for each of the halves. -/
theorem nearest_scaled {n k : Nat} (hk : stepsPerUnit = 1 <<< k) (hn : n ≤ infinityCode) :
    nearest ⟨quanta n * Nat.pow 5 k, -(k : Int)⟩ = n := by
  have hbehind : (- -(k : Int)).toNat = k := by omega
  have hbefore : (-(k : Int)).toNat = 0 := by omega
  rw [nearest, hbehind, hbefore]
  refine nearestCode_eq ?_ (Nat.pow_pos (by decide)) hn
  rw [hk, Nat.one_shiftLeft, Nat.pow_eq, Nat.pow_eq, Nat.pow_eq, Nat.pow_zero, Nat.mul_one,
    Nat.mul_assoc, ← Nat.mul_pow]

/-- **All digits** of a number read back as the number. -/
theorem nearest_exact {n : Nat} (hn : n ≤ infinityCode) : (exact n).nearest = n := by
  have hsteps : stepsPerUnit = 1 <<< 1074 := by rw [stepsPerUnit]
  have hplace : (-1074 : Int) = -((1074 : Nat) : Int) := rfl
  rw [exact, hplace]
  -- the powers are never computed: what number of halves there are does not matter
  generalize 1074 = k at hsteps ⊢
  exact nearest_scaled hsteps hn

/-- **The shortest digits** of a number read back as the number. -/
theorem nearest_shortest_eq {n : Nat} (hn : n ≤ infinityCode) : (shortest n).nearest = n := by
  rcases nearest_shortest n with h | h
  · exact h
  · rw [h, nearest_exact hn]

/-! ### The text of a decimal -/

theorem isDigit_of_mem_toDigits {n : Nat} {c : Char} (hc : c ∈ Nat.toDigits 10 n) : IsDigit c :=
  Lexeme.isDigit_iff.mp (Nat.isDigit_of_mem_toDigits (by decide) (by decide) hc)

theorem point_not_mem {w : List Char} (h : ∀ c ∈ w, IsDigit c) : '.' ∉ w :=
  fun hc => absurd (h _ hc) (by decide)

/-- **What a decimal is written as**: digits, and as many more behind a point as it has places. -/
theorem exists_positional (d : Decimal) : ∃ whole fraction, whole ≠ [] ∧
    (∀ c ∈ whole ++ fraction, IsDigit c) ∧ fraction.length = (-d.place).toNat ∧
    Nat.ofDigitChars 10 (whole ++ fraction) 0 = d.digits * 10 ^ d.place.toNat ∧
    d.positional = if fraction = [] then whole else whole ++ '.' :: fraction := by
  simp only [positional]
  generalize hplaces : (-d.place).toNat = places
  generalize hwritten : Nat.toDigits 10 d.digits ++ List.replicate d.place.toNat '0' = written
  generalize hpadded : List.replicate (places + 1 - written.length) '0' ++ written = padded
  have hlength : places < padded.length := by
    rw [← hpadded, List.length_append, List.length_replicate]
    omega
  have hdigits : ∀ c ∈ padded, IsDigit c := by
    subst hpadded hwritten
    intro c hc
    simp only [List.mem_append, List.mem_replicate] at hc
    rcases hc with ⟨-, rfl⟩ | hc | ⟨-, rfl⟩
    · decide
    · exact isDigit_of_mem_toDigits hc
    · decide
  -- zeros in front change nothing, and those behind are powers of ten
  have hvalue : Nat.ofDigitChars 10 padded 0 = d.digits * 10 ^ d.place.toNat := by
    subst hpadded hwritten
    rw [Nat.ofDigitChars_append, Nat.ofDigitChars_append, Nat.ofDigitChars_replicate_zero,
      Nat.ofDigitChars_replicate_zero, Nat.mul_zero, Nat.ofDigitChars_ten_toDigits, Nat.mul_comm]
  refine ⟨padded.take (padded.length - places), padded.drop (padded.length - places), ?_⟩
  rw [List.take_append_drop]
  refine ⟨?_, hdigits, ?_, hvalue, ?_⟩
  · rw [ne_eq, List.take_eq_nil_iff]
    rintro (h | rfl)
    · omega
    · exact absurd hlength (Nat.not_lt_zero _)
  · rw [List.length_drop]
    omega
  · by_cases hzero : places = 0
    · simp [hzero]
    · have hfraction : padded.drop (padded.length - places) ≠ [] := by
        rw [ne_eq, List.drop_eq_nil_iff]
        omega
      simp only [if_neg hzero, if_neg hfraction]

/-- The text of a decimal **is a numeral**. -/
theorem positional_mem_numeral (d : Decimal) : d.positional ∈ Pattern.numeral.language := by
  obtain ⟨whole, fraction, hne, hdigits, -, -, h⟩ := exists_positional d
  obtain ⟨c, cs, rfl⟩ := List.exists_cons_of_ne_nil hne
  rw [mem_numeral, h]
  simp only [List.cons_append, List.forall_mem_cons] at hdigits
  split
  · exact ⟨c, cs, rfl, hdigits.1, fun d hd => .inl (hdigits.2 d (List.mem_append_left _ hd))⟩
  · refine ⟨c, cs ++ '.' :: fraction, rfl, hdigits.1, fun d hd => ?_⟩
    rcases List.mem_append.mp hd with hd | hd
    · exact .inl (hdigits.2 d (List.mem_append_left _ hd))
    · exact (List.mem_cons.mp hd).symm.imp_left fun hd => hdigits.2 d (List.mem_append_right _ hd)

/-- The text of a decimal **spells a decimal that is as near**: zeros before the point are digits of
it. -/
theorem exists_spelled_positional (d : Decimal) :
    ∃ e, Spelled d.positional e ∧ e.nearest = d.nearest := by
  obtain ⟨whole, fraction, -, hdigits, hlength, hvalue, h⟩ := exists_positional d
  obtain ⟨hwhole, hfraction⟩ := List.forall_mem_append.mp hdigits
  rw [h]
  refine ⟨⟨d.digits * 10 ^ d.place.toNat, -(fraction.length : Int)⟩, ?_, ?_⟩
  · rw [← hvalue]
    split
    · next hnil =>
      subst hnil
      rw [List.append_nil]
      exact .whole (point_not_mem hwhole)
    · exact .point (point_not_mem hwhole) (point_not_mem hfraction)
  · have hbehind : (- -(fraction.length : Int)).toNat = (-d.place).toNat := by omega
    have hbefore : (-(fraction.length : Int)).toNat = 0 := by omega
    simp only [nearest, hbehind, hbefore, Nat.pow_eq, Nat.pow_zero, Nat.mul_one]

/-- What spells a decimal **counts as a whole**. -/
theorem Spelled.valuePart {w : List Char} {d : Decimal} (h : Spelled w d) : ValuePart w w := by
  refine ⟨List.prefix_refl w, ?_, fun _ hother _ => hother.length_le⟩
  cases h with
  | whole hwhole => simp [List.count_eq_zero.mpr hwhole]
  | point hwhole hfraction =>
    simp [List.count_eq_zero.mpr hwhole, List.count_eq_zero.mpr hfraction]

end Decimal

/-! ### The text of a magnitude -/

/-- The **digits of a finite magnitude**, zero among them. -/
def Decimal.numeral (n : Nat) : List Char :=
  if n = 0 then ['0'] else (Decimal.shortest n).positional

namespace Lexeme

open Binary64

variable {n m : Nat}

/-- **The digits of a magnitude denote it.** -/
theorem denotes_numeral (hn : n ≤ infinityCode) :
    Denotes (Decimal.numeral n) (.number (ofCode false n)) := by
  unfold Decimal.numeral
  split
  · next hzero =>
    subst hzero
    have hquanta : quanta 0 = 0 := by decide
    have hnearest : Decimal.nearest ⟨0, 0⟩ = 0 :=
      nearestCode_eq (by rw [hquanta, Nat.zero_mul, Nat.zero_mul, Nat.zero_mul]) (by decide) hn
    have hspelled : Decimal.Spelled ['0'] ⟨0, 0⟩ := .whole (by decide)
    have hdenotes := Denotes.number (mem_numeral.mpr ⟨'0', [], rfl, by decide, nofun⟩)
      hspelled.valuePart hspelled
    rwa [hnearest] at hdenotes
  · obtain ⟨d, hd, hnearest⟩ := Decimal.exists_spelled_positional (Decimal.shortest n)
    rw [Decimal.nearest_shortest_eq hn] at hnearest
    have hdenotes := Denotes.number (Decimal.positional_mem_numeral _) hd.valuePart hd
    rwa [hnearest] at hdenotes

end Lexeme

end ScopeScript
