import ScopeScript.Text.Quoted
import Mathlib.Data.List.Basic

/-!
# Quoted texts are told apart

**The quotes of a quoted text can be found, and what stands between them determines the text**
(`ScopeScript.Text.quoted_append_inj`), whatever follows behind the closing quote. A character is
written as itself, as a backslash and a letter, or by its code point in braces, and no way of
writing one character begins another (`ScopeScript.Text.Escaped.append_inj`); none begins with a
quote.
-/

namespace ScopeScript.Text

variable {c c' : Char} {rest rest' : List Char}

/-! ### Code points -/

/-- The **hexadecimal digits** in their order. -/
def hexDigits : List Char :=
  (List.range 16).map Nat.digitChar

/-- The number that hexadecimal digits spell. -/
def ofHexDigits (digits : List Char) : Nat :=
  digits.foldl (fun n c => 16 * n + hexDigits.idxOf c) 0

theorem idxOf_digitChar : ∀ n < 16, hexDigits.idxOf n.digitChar = n := by
  decide

/-- **Hexadecimal digits read back.** -/
theorem ofHexDigits_toDigits (n : Nat) : ofHexDigits (Nat.toDigits 16 n) = n := by
  induction n using Nat.strongRecOn with
  | ind n ih =>
    rw [Nat.toDigits_eq_if (by decide)]
    split
    · next hn => simpa [ofHexDigits] using idxOf_digitChar n hn
    · next hn =>
      have hfront := ih (n / 16) (by omega)
      have hlast := idxOf_digitChar (n % 16) (Nat.mod_lt n (by decide))
      rw [ofHexDigits] at hfront ⊢
      rw [List.foldl_append, hfront, List.foldl_cons, List.foldl_nil, hlast]
      omega

theorem mem_hexDigits_of_mem_toDigits (n : Nat) : ∀ c ∈ Nat.toDigits 16 n, c ∈ hexDigits := by
  have hdigit (n : Nat) (hn : n < 16) : n.digitChar ∈ hexDigits :=
    List.mem_map_of_mem (List.mem_range.mpr hn)
  induction n using Nat.strongRecOn with
  | ind n ih =>
    rw [Nat.toDigits_eq_if (by decide)]
    split
    · next hn => exact List.forall_mem_singleton.mpr (hdigit n hn)
    · exact List.forall_mem_append.mpr ⟨ih (n / 16) (by omega),
        List.forall_mem_singleton.mpr (hdigit _ (Nat.mod_lt n (by decide)))⟩

/-- **A run of characters ends** at the first that does not belong to it. -/
theorem run_append_inj {p : Char → Prop} {run run' : List Char} (h : ∀ c ∈ run, p c)
    (h' : ∀ c ∈ run', p c) (hrest : ∀ c ∈ rest.head?, ¬ p c) (hrest' : ∀ c ∈ rest'.head?, ¬ p c)
    (heq : run ++ rest = run' ++ rest') : run = run' ∧ rest = rest' := by
  induction run generalizing run' with
  | nil =>
    cases run' with
    | nil => exact ⟨rfl, heq⟩
    | cons c run' =>
      rw [List.nil_append] at heq
      exact absurd (h' c List.mem_cons_self) (hrest c (by rw [heq]; rfl))
  | cons c run ih =>
    obtain ⟨hc, hrun⟩ := List.forall_mem_cons.mp h
    cases run' with
    | nil =>
      rw [List.nil_append] at heq
      exact absurd hc (hrest' c (by rw [← heq]; rfl))
    | cons c' run' =>
      obtain ⟨rfl, htail⟩ := List.cons.inj heq
      obtain ⟨rfl, hrest⟩ := ih hrun (List.forall_mem_cons.mp h').2 htail
      exact ⟨rfl, hrest⟩

/-! ### Characters between quotes -/

/-- The characters that have an **escape of one letter**, with the letter. -/
def letterEscapes : List (Char × Char) :=
  [('\x00', '0'), ('\t', 't'), ('\n', 'n'), ('\r', 'r'), ('"', '"'), ('\\', '\\')]

/-- **How a character is written** between quotes. -/
inductive Escaped (c : Char) : List Char → Prop
  /-- A backslash and a letter. -/
  | letter {d} (h : (c, d) ∈ letterEscapes) : Escaped c ['\\', d]
  /-- The character itself. -/
  | self (hquote : c ≠ '"') (hslash : c ≠ '\\') : Escaped c [c]
  /-- Its code point in braces. -/
  | code : Escaped c ('\\' :: 'u' :: '\x7b' :: (Nat.toDigits 16 c.toNat ++ ['\x7d']))

theorem escaped_spec (c : Char) : Escaped c (escaped c) := by
  unfold escaped
  iterate 6
    split
    · next h =>
      subst h
      exact .letter (by decide)
  split
  · exact .self ‹_› ‹_›
  · exact .code

/-- **No way of writing one character begins another.** -/
theorem Escaped.append_inj {w w' : List Char} (h : Escaped c w) (h' : Escaped c' w')
    (heq : w ++ rest = w' ++ rest') : c = c' ∧ rest = rest' := by
  have hletters : ∀ s ∈ letterEscapes, ∀ t ∈ letterEscapes, s.2 = t.2 → s.1 = t.1 := by decide
  have hcode : ∀ s ∈ letterEscapes, s.2 ≠ 'u' := by decide
  have hbrace (rest : List Char) : ∀ c ∈ ('\x7d' :: rest).head?, c ∉ hexDigits := by
    rintro c ⟨⟩
    decide
  cases h with
  | @letter d hd =>
    cases h' with
    | @letter d' hd' =>
      simp only [List.cons_append, List.nil_append, List.cons.injEq, true_and] at heq
      exact ⟨hletters _ hd _ hd' heq.1, heq.2⟩
    | self hquote hslash => exact absurd (List.cons.inj heq).1.symm hslash
    | code => exact absurd (List.cons.inj (List.cons.inj heq).2).1 (hcode _ hd)
  | self hquote hslash =>
    cases h' with
    | letter hd' => exact absurd (List.cons.inj heq).1 hslash
    | self => exact ⟨(List.cons.inj heq).1, (List.cons.inj heq).2⟩
    | code => exact absurd (List.cons.inj heq).1 hslash
  | code =>
    cases h' with
    | letter hd' => exact absurd (List.cons.inj (List.cons.inj heq).2).1.symm (hcode _ hd')
    | self hquote hslash => exact absurd (List.cons.inj heq).1.symm hslash
    | code =>
      simp only [List.cons_append, List.cons.injEq, true_and, List.append_assoc,
        List.nil_append] at heq
      obtain ⟨hdigits, hrest⟩ := run_append_inj (mem_hexDigits_of_mem_toDigits _)
        (mem_hexDigits_of_mem_toDigits _) (hbrace _) (hbrace _) heq
      have hcode := congrArg ofHexDigits hdigits
      rw [ofHexDigits_toDigits, ofHexDigits_toDigits] at hcode
      exact ⟨Char.toNat_inj.mp hcode, (List.cons.inj hrest).2⟩

theorem Escaped.head_ne_quote {w : List Char} (h : Escaped c w) :
    ∃ d w', w = d :: w' ∧ d ≠ '"' := by
  cases h with
  | letter | code => exact ⟨_, _, rfl, by decide⟩
  | self hquote => exact ⟨_, _, rfl, hquote⟩

/-- **The closing quote is found**, and the text before it is determined. -/
theorem flatMap_escaped_append_inj {cs cs' : List Char}
    (h : cs.flatMap escaped ++ '"' :: rest = cs'.flatMap escaped ++ '"' :: rest') :
    cs = cs' ∧ rest = rest' := by
  induction cs generalizing cs' with
  | nil =>
    cases cs' with
    | nil => exact ⟨rfl, (List.cons.inj h).2⟩
    | cons c' cs' =>
      obtain ⟨d, w, hw, hd⟩ := (escaped_spec c').head_ne_quote
      rw [List.flatMap_cons, hw] at h
      exact absurd (List.cons.inj h).1.symm hd
  | cons c cs ih =>
    cases cs' with
    | nil =>
      obtain ⟨d, w, hw, hd⟩ := (escaped_spec c).head_ne_quote
      rw [List.flatMap_cons, hw] at h
      exact absurd (List.cons.inj h).1 hd
    | cons c' cs' =>
      rw [List.flatMap_cons, List.flatMap_cons, List.append_assoc, List.append_assoc] at h
      obtain ⟨rfl, htail⟩ := (escaped_spec c).append_inj (escaped_spec c') h
      obtain ⟨rfl, hrest⟩ := ih htail
      exact ⟨rfl, hrest⟩

/-- **A quoted text ends at its closing quote, and is determined by what it is written as.** -/
theorem quoted_append_inj {s s' : String}
    (h : (quoted s).toList ++ rest = (quoted s').toList ++ rest') : s = s' ∧ rest = rest' := by
  rw [toList_quoted, toList_quoted, List.cons_append, List.cons_append, List.append_assoc,
    List.append_assoc] at h
  obtain ⟨hchars, hrest⟩ := flatMap_escaped_append_inj (List.cons.inj h).2
  exact ⟨String.toList_inj.mp hchars, hrest⟩

theorem quoted_inj {s s' : String} (h : quoted s = quoted s') : s = s' := by
  have happend : (quoted s).toList ++ [] = (quoted s').toList ++ [] := by rw [h]
  exact (quoted_append_inj happend).1

end ScopeScript.Text
