/-!
# Positions in a source text

A source text is a list of characters, and a place in it is a number of **bytes** of its UTF-8
spelling: `ScopeScript.byteLength` counts them. A `ScopeScript.Span` is the stretch between two
places. Every token and every node of a program carries the span of its text, and every error
points at one.

## Main definitions

* `ScopeScript.byteLength`: how many bytes a piece of text takes.
* `ScopeScript.Span`: a half-open stretch of bytes.
* `ScopeScript.Span.merge`: the smallest span that covers two others.
-/

namespace ScopeScript

/-- The number of **bytes** that a piece of text takes in UTF-8. -/
def byteLength (cs : List Char) : Nat :=
  cs.foldr (fun c n => c.utf8Size + n) 0

@[simp] theorem byteLength_nil : byteLength [] = 0 := rfl

@[simp] theorem byteLength_cons (c : Char) (cs : List Char) :
    byteLength (c :: cs) = c.utf8Size + byteLength cs := rfl

@[simp] theorem byteLength_append (cs ds : List Char) :
    byteLength (cs ++ ds) = byteLength cs + byteLength ds := by
  induction cs with
  | nil => simp
  | cons c cs ih => simp [ih, Nat.add_assoc]

theorem byteLength_pos {cs : List Char} (h : cs ≠ []) : 0 < byteLength cs := by
  cases cs with
  | nil => contradiction
  | cons c cs => exact Nat.add_pos_left c.utf8Size_pos _

/-- The bytes of the characters of a string are the **bytes of the string**. -/
@[simp] theorem byteLength_toList (s : String) : byteLength s.toList = s.utf8ByteSize := by
  have h (cs : List Char) : byteLength cs = (String.ofList cs).utf8ByteSize := by
    induction cs with
    | nil => simp
    | cons c cs ih =>
      rw [byteLength_cons, ih, ← List.singleton_append, String.ofList_append,
        String.utf8ByteSize_append, ← String.singleton_eq_ofList, String.utf8ByteSize_singleton]
  rw [h, String.ofList_toList]

/-- A **stretch of a source text**, from byte `start` up to but without byte `stop`. -/
structure Span where
  /-- The byte at which the stretch begins. -/
  start : Nat
  /-- The byte just after the stretch. -/
  stop : Nat
deriving DecidableEq, Inhabited

namespace Span

/-- The empty span at the very beginning, which stands for "no place known". -/
def none : Span := ⟨0, 0⟩

/-- The **smallest span that covers both**. -/
def merge (a b : Span) : Span :=
  ⟨min a.start b.start, max a.stop b.stop⟩

/-- The span written with two dots, as in `3..7`. -/
def text (s : Span) : String :=
  toString s.start ++ ".." ++ toString s.stop

theorem merge_comm (a b : Span) : a.merge b = b.merge a := by
  simp [merge, Nat.min_comm, Nat.max_comm]

theorem merge_assoc (a b c : Span) : (a.merge b).merge c = a.merge (b.merge c) := by
  simp [merge, Nat.min_assoc, Nat.max_assoc]

end Span

end ScopeScript
