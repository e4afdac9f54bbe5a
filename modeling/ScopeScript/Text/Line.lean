import ScopeScript.Text.Span

/-!
# Lines of a source text

A source text is shown line by line. A line ends with a line feed, a carriage return, the two of
them together, a vertical tab, a form feed, or one of the three further characters of Unicode that
end lines or paragraphs; what ends a line belongs to it. What follows the last line end is a line
only if there is something, but a text without characters is one line.

## Main definitions

* `ScopeScript.Text.sourceLines`: the lines of a text.
* `ScopeScript.Text.locate`: the line in which a byte lies.
* `ScopeScript.Text.charactersBefore`: how many characters begin before a byte.
* `ScopeScript.Text.cutBytes`: a text cut at a byte.
-/

namespace ScopeScript.Text

/-- The characters that **end a line**. -/
def endsLine (c : Char) : Bool :=
  c = '\n' || c = '\r' || c = '\x0b' || c = '\x0c' || c = '\u0085' || c = '\u2028' || c = '\u2029'

/-- Cuts a text behind its **first line**. -/
def cutLine : List Char → List Char × List Char
  | [] => ([], [])
  | '\r' :: '\n' :: cs => (['\r', '\n'], cs)
  | c :: cs =>
    if endsLine c then ([c], cs)
    else
      let (line, rest) := cutLine cs
      (c :: line, rest)

theorem cutLine_append (cs : List Char) : (cutLine cs).1 ++ (cutLine cs).2 = cs := by
  fun_induction cutLine cs <;> simp_all

theorem length_cutLine_snd (c : Char) (cs : List Char) :
    (cutLine (c :: cs)).2.length < (c :: cs).length := by
  have h : (cutLine (c :: cs)).1 ≠ [] := by
    unfold cutLine
    split
    · simp_all
    · simp
    · next c' cs' _ heq =>
      split <;> simp
  have := congrArg List.length (cutLine_append (c :: cs))
  have := List.length_pos_iff.2 h
  simp only [List.length_append] at *
  omega

/-- The lines of a text, none if it has no characters. -/
def linesOf : List Char → List (List Char)
  | [] => []
  | c :: cs => (cutLine (c :: cs)).1 :: linesOf (cutLine (c :: cs)).2
termination_by cs => cs.length
decreasing_by exact length_cutLine_snd c cs

/-- The **lines of a source text**: at least one. -/
def sourceLines (cs : List Char) : List (List Char) :=
  if cs = [] then [[]] else linesOf cs

/-- The **line in which a byte lies**: its number, its characters, and the bytes of it before that
byte. The end of the text lies in the last line; no line holds what is beyond. The first of the
given lines has the number `number`. -/
def locate (number : Nat) : List (List Char) → Nat → Option (Nat × List Char × Nat)
  | [], _ => none
  | [line], byte => if byte ≤ byteLength line then some (number, line, byte) else none
  | line :: next :: rest, byte =>
    if byte < byteLength line then some (number, line, byte)
    else locate (number + 1) (next :: rest) (byte - byteLength line)

/-- The number of characters that **begin before** the given byte of a text. -/
def charactersBefore : List Char → Nat → Nat
  | [], _ => 0
  | _ :: _, 0 => 0
  | c :: cs, byte + 1 => charactersBefore cs (byte + 1 - c.utf8Size) + 1

/-- A text **cut at the given byte**. -/
def cutBytes (byte : Nat) (cs : List Char) : List Char × List Char :=
  cs.splitAt (charactersBefore cs byte)

theorem charactersBefore_append (cs ds : List Char) :
    charactersBefore (cs ++ ds) (byteLength cs) = cs.length := by
  induction cs with
  | nil => cases ds <;> rfl
  | cons c cs ih =>
    -- a character takes one byte at least, so not all of the text comes before it
    obtain ⟨n, hn⟩ := Nat.exists_eq_add_one_of_ne_zero (Nat.pos_iff_ne_zero.mp c.utf8Size_pos)
    have hbytes : byteLength (c :: cs) = n + byteLength cs + 1 := by
      rw [byteLength_cons, hn, Nat.add_right_comm]
    rw [List.cons_append, hbytes, charactersBefore, hn, Nat.add_right_comm, Nat.add_sub_cancel_left,
      ih, List.length_cons]

/-- A text is cut **between two characters** where there are as many bytes before. -/
theorem cutBytes_append (cs ds : List Char) :
    cutBytes (byteLength cs) (cs ++ ds) = (cs, ds) := by
  simp [cutBytes, charactersBefore_append, List.splitAt_eq]

end ScopeScript.Text
