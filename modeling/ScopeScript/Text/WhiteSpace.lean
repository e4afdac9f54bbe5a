/-!
# White space at the ends of a text

A line that is read or shown is often stripped of the white space at its ends. White space is meant
in the sense of Unicode, which has more of it than ASCII.

## Main definitions

* `ScopeScript.Text.isWhiteSpace`: the property White_Space.
* `ScopeScript.Text.trim`, `ScopeScript.Text.trimEnd`: a text without the white space at both ends,
  or at its end.
-/

namespace ScopeScript.Text

/-- The characters with the property **White_Space**. -/
def isWhiteSpace (c : Char) : Bool :=
  let n := c.toNat
  decide (9 ≤ n ∧ n ≤ 13 ∨ n = 0x20 ∨ n = 0x85 ∨ n = 0xA0 ∨ n = 0x1680 ∨ 0x2000 ≤ n ∧ n ≤ 0x200A ∨
    n = 0x2028 ∨ n = 0x2029 ∨ n = 0x202F ∨ n = 0x205F ∨ n = 0x3000)

/-- A text without the white space **at its end**. -/
def trimEnd (cs : List Char) : List Char :=
  (cs.reverse.dropWhile isWhiteSpace).reverse

/-- A text without the white space **at its ends**. -/
def trim (cs : List Char) : List Char :=
  trimEnd (cs.dropWhile isWhiteSpace)

end ScopeScript.Text
