import ScopeScript.Text.Printable

/-!
# Quoted text

Where a string is named in a message or in a printed program it is written between double quotes,
so that its ends and its invisible characters can be seen. The quote and the backslash are escaped
by a backslash, the characters null, tab, newline and carriage return have escapes of one letter,
and any other character that does not show as itself is given by its code point in braces.

## Main definitions

* `ScopeScript.Text.escaped`: how one character is written between the quotes.
* `ScopeScript.Text.quoted`: the whole text, quotes included.
-/

namespace ScopeScript.Text

/-- How a character is written **between double quotes**. -/
def escaped (c : Char) : List Char :=
  if c = '\x00' then ['\\', '0']
  else if c = '\t' then ['\\', 't']
  else if c = '\n' then ['\\', 'n']
  else if c = '\r' then ['\\', 'r']
  else if c = '"' then ['\\', '"']
  else if c = '\\' then ['\\', '\\']
  else if isPrintable c then [c]
  else '\\' :: 'u' :: '\x7b' :: (Nat.toDigits 16 c.toNat ++ ['\x7d'])

/-- The text between **double quotes**, with all that would not show escaped. -/
def quoted (s : String) : String :=
  String.ofList ('"' :: (s.toList.flatMap escaped ++ ['"']))

theorem toList_quoted (s : String) :
    (quoted s).toList = '"' :: (s.toList.flatMap escaped ++ ['"']) := by
  simp [quoted]

end ScopeScript.Text
