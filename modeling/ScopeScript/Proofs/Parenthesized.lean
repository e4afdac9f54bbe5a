import ScopeScript.Proofs.QuotedText

/-!
# Words and lists in parentheses

The form in which programs are listed: **words, and lists in parentheses** of such items, with a
space between neighbours. A word is plain, without spaces, parentheses, line ends and quotes, or it
is a quoted text, which may have all of these between its quotes.

**An item can be read off the front of a text** (`ScopeScript.Listed.print_append_inj`): what it is
printed as determines it, and ends where a space, a closing parenthesis or a line end stands. So
items one after the other are determined as well, behind spaces or on lines of their own.
-/

namespace ScopeScript

/-! ### Items -/

/-- A **word or a list** of items. -/
inductive Listed where
  /-- A word. -/
  | word (text : String)
  /-- A list in parentheses. -/
  | list (items : List Listed)

/-- A word **without** spaces, line ends, parentheses and quotes. -/
structure Plain (w : String) : Prop where
  /-- It has characters. -/
  ne_nil : w.toList ≠ []
  /-- None of them has a meaning of its own. -/
  plain : ∀ c ∈ w.toList, c ∉ [' ', '\n', '(', ')', '"']

theorem Plain.of_all {w : String} (hne : w.toList ≠ [])
    (h : w.toList.all (· ∉ [' ', '\n', '(', ')', '"'])) : Plain w :=
  ⟨hne, fun c hc => of_decide_eq_true (List.all_eq_true.mp h c hc)⟩

/-- A word **that can be read off**: a plain one, or a quoted text. -/
def IsWord (w : String) : Prop :=
  Plain w ∨ ∃ s, w = Text.quoted s

namespace Listed

mutual

/-- An item **in print**. -/
def print : Listed → List Char
  | word w => w.toList
  | list [] => ['(', ')']
  | list (x :: xs) => '(' :: (x.print ++ (printEach ' ' xs ++ [')']))

/-- Several items in print, **each behind a separator**. -/
def printEach (sep : Char) : List Listed → List Char
  | [] => []
  | x :: xs => sep :: (x.print ++ printEach sep xs)

end

mutual

/-- All words of an item **can be read off**. -/
def Legible : Listed → Prop
  | word w => IsWord w
  | list xs => LegibleAll xs

/-- All words of several items can be read off. -/
def LegibleAll : List Listed → Prop
  | [] => True
  | x :: xs => x.Legible ∧ LegibleAll xs

end

/-! ### Reading items off -/

/-- A text that may stand **behind an item**. -/
def Ends (rest : List Char) : Prop :=
  ∀ c ∈ rest.head?, c ∈ [' ', '\n', ')']

variable {x y : Listed} {rest rest' : List Char}

theorem ends_each {sep : Char} (hsep : sep ∈ [' ', '\n']) (xs : List Listed) (h : Ends rest) :
    Ends (printEach sep xs ++ rest) := by
  cases xs with
  | nil => exact h
  | cons x xs =>
    rintro c ⟨⟩
    simp only [List.mem_cons, List.not_mem_nil, or_false] at hsep ⊢
    tauto

theorem ends_close : Ends (')' :: rest) := by
  rintro c ⟨⟩
  decide

/-- **Words are read off.** -/
theorem word_append_inj {v w : String} (hv : IsWord v) (hw : IsWord w) (h : Ends rest)
    (h' : Ends rest') (heq : v.toList ++ rest = w.toList ++ rest') : v = w ∧ rest = rest' := by
  have hstop {rest : List Char} (h : Ends rest) :
      ∀ c ∈ rest.head?, ¬ c ∉ [' ', '\n', '(', ')', '"'] := by
    intro c hc
    have := h c hc
    simp only [List.mem_cons, List.not_mem_nil, or_false] at this ⊢
    tauto
  -- a plain word does not begin with a quote
  have hquote {v : String} (hv : Plain v) (s : String) (rest rest' : List Char) :
      v.toList ++ rest ≠ (Text.quoted s).toList ++ rest' := by
    intro heq
    obtain ⟨c, cs, hcs⟩ := List.exists_cons_of_ne_nil hv.ne_nil
    rw [Text.toList_quoted, hcs] at heq
    obtain rfl := (List.cons.inj heq).1
    exact hv.plain '"' (hcs ▸ List.mem_cons_self) (by decide)
  rcases hv with hv | ⟨s, rfl⟩ <;> rcases hw with hw | ⟨t, rfl⟩
  · obtain ⟨hword, hrest⟩ := Text.run_append_inj hv.plain hw.plain (hstop h) (hstop h') heq
    exact ⟨String.toList_inj.mp hword, hrest⟩
  · exact absurd heq (hquote hv t rest rest')
  · exact absurd heq.symm (hquote hw s rest' rest)
  · obtain ⟨rfl, hrest⟩ := Text.quoted_append_inj heq
    exact ⟨rfl, hrest⟩

/-- A word begins **neither with a parenthesis nor with a separator**. -/
theorem exists_head {w : String} (hw : IsWord w) :
    ∃ c cs, w.toList = c :: cs ∧ c ∉ [' ', '\n', '(', ')'] := by
  rcases hw with hw | ⟨s, rfl⟩
  · obtain ⟨c, cs, hcs⟩ := List.exists_cons_of_ne_nil hw.ne_nil
    have hplain := hw.plain c (hcs ▸ List.mem_cons_self)
    exact ⟨c, cs, hcs, fun hc => hplain (List.mem_append_left ['"'] hc)⟩
  · exact ⟨_, _, Text.toList_quoted s, by decide⟩

theorem print_list (xs : List Listed) : ∃ cs, (list xs).print = '(' :: cs := by
  cases xs <;> exact ⟨_, rfl⟩

/-- A word is **no list**. -/
theorem word_ne_list {w : String} (hw : IsWord w) (xs : List Listed) (rest rest' : List Char) :
    w.toList ++ rest ≠ (list xs).print ++ rest' := by
  obtain ⟨c, cs, hcs, hc⟩ := exists_head hw
  obtain ⟨cs', hcs'⟩ := print_list xs
  rw [hcs, hcs']
  intro heq
  obtain rfl := (List.cons.inj heq).1
  exact hc (by decide)

/-- No item begins with a **closing parenthesis**. -/
theorem print_ne_close (hx : x.Legible) (rest cs : List Char) : x.print ++ rest ≠ ')' :: cs := by
  cases x with
  | word w =>
    obtain ⟨c, cs', hcs, hc⟩ := exists_head hx
    rw [print, hcs]
    intro heq
    obtain rfl := (List.cons.inj heq).1
    exact hc (by decide)
  | list xs =>
    obtain ⟨cs', hcs⟩ := print_list xs
    rw [hcs]
    exact fun heq => absurd (List.cons.inj heq).1 (by decide)

mutual

/-- **What an item is printed as determines the item**, wherever it stands. -/
theorem print_append_inj : ∀ {x y : Listed} {rest rest' : List Char}, x.Legible → y.Legible →
    Ends rest → Ends rest' → x.print ++ rest = y.print ++ rest' → x = y ∧ rest = rest'
  | word v, word w, rest, rest', hx, hy, h, h', heq => by
    obtain ⟨rfl, hrest⟩ := word_append_inj hx hy h h' heq
    exact ⟨rfl, hrest⟩
  | word v, list ys, rest, rest', hx, _, _, _, heq => absurd heq (word_ne_list hx ys rest rest')
  | list xs, word w, rest, rest', _, hy, _, _, heq =>
    absurd heq.symm (word_ne_list hy xs rest' rest)
  | list [], list [], rest, rest', _, _, _, _, heq => ⟨rfl, by simpa [print] using heq⟩
  | list [], list (y :: ys), rest, rest', _, hy, _, _, heq => by
    simp only [print, List.cons_append, List.append_assoc, List.nil_append] at heq
    exact absurd (List.cons.inj heq).2.symm (print_ne_close hy.1 _ _)
  | list (x :: xs), list [], rest, rest', hx, _, _, _, heq => by
    simp only [print, List.cons_append, List.append_assoc, List.nil_append] at heq
    exact absurd (List.cons.inj heq).2 (print_ne_close hx.1 _ _)
  | list (x :: xs), list (y :: ys), rest, rest', hx, hy, _, _, heq => by
    have hspace : ' ' ∈ [' ', '\n'] := by decide
    have hclose (rest : List Char) : ∀ c ∈ (')' :: rest).head?, c ≠ ' ' := by
      rintro c ⟨⟩
      decide
    simp only [print, List.cons_append, List.append_assoc, List.nil_append] at heq
    obtain ⟨rfl, htail⟩ := print_append_inj hx.1 hy.1 (ends_each hspace xs ends_close)
      (ends_each hspace ys ends_close) (List.cons.inj heq).2
    obtain ⟨rfl, hrest⟩ := printEach_append_inj hspace hx.2 hy.2 ends_close ends_close (hclose _)
      (hclose _) htail
    exact ⟨rfl, (List.cons.inj hrest).2⟩

/-- What items are printed as **each behind a separator** determines them, if no separator
follows. -/
theorem printEach_append_inj {sep : Char} (hsep : sep ∈ [' ', '\n']) :
    ∀ {xs ys : List Listed} {rest rest' : List Char}, LegibleAll xs → LegibleAll ys →
      Ends rest → Ends rest' → (∀ c ∈ rest.head?, c ≠ sep) → (∀ c ∈ rest'.head?, c ≠ sep) →
        printEach sep xs ++ rest = printEach sep ys ++ rest' → xs = ys ∧ rest = rest'
  | [], [], _, _, _, _, _, _, _, _, heq => ⟨rfl, heq⟩
  | [], y :: ys, rest, rest', _, _, _, _, h, _, heq => by
    rw [printEach, List.nil_append] at heq
    exact absurd rfl (h sep (by rw [heq]; rfl))
  | x :: xs, [], rest, rest', _, _, _, _, _, h', heq => by
    rw [printEach, printEach, List.nil_append] at heq
    exact absurd rfl (h' sep (by rw [← heq]; rfl))
  | x :: xs, y :: ys, rest, rest', hxs, hys, hends, hends', h, h', heq => by
    simp only [printEach, List.cons_append, List.append_assoc] at heq
    obtain ⟨rfl, htail⟩ := print_append_inj hxs.1 hys.1 (ends_each hsep xs hends)
      (ends_each hsep ys hends') (List.cons.inj heq).2
    obtain ⟨rfl, hrest⟩ := printEach_append_inj hsep hxs.2 hys.2 hends hends' h h' htail
    exact ⟨rfl, hrest⟩

end

/-! ### Items with separators between them -/

/-- Several items in print, with a separator **between neighbours**. -/
def printAll (sep : Char) : List Listed → List Char
  | [] => []
  | x :: xs => x.print ++ printEach sep xs

theorem print_list_eq (xs : List Listed) :
    (list xs).print = '(' :: (printAll ' ' xs ++ [')']) := by
  cases xs <;> simp [print, printAll]

theorem intercalate_print (sep : Char) (xs : List Listed) :
    [sep].intercalate (xs.map print) = printAll sep xs := by
  cases xs with
  | nil => rfl
  | cons x xs =>
    rw [printAll]
    induction xs generalizing x with
    | nil => simp [printEach]
    | cons y xs ih =>
      rw [List.map_cons, List.map_cons, List.intercalate_cons_cons, ← List.map_cons, ih y,
        printEach, List.append_assoc]
      rfl

/-- **Items between separators are determined** by what they are printed as. -/
theorem printAll_inj {sep : Char} (hsep : sep ∈ [' ', '\n']) {xs ys : List Listed}
    (hxs : LegibleAll xs) (hys : LegibleAll ys) (h : printAll sep xs = printAll sep ys) :
    xs = ys := by
  have hends : Ends [] := nofun
  have hnil : ∀ c ∈ ([] : List Char).head?, c ≠ sep := nofun
  -- no item is printed as nothing: a closing parenthesis would then begin what follows
  have hne {x : Listed} {xs : List Listed} (hx : x.Legible) : printAll sep (x :: xs) ≠ [] := by
    intro hnone
    obtain ⟨hprint, -⟩ := List.append_eq_nil_iff.mp hnone
    exact print_ne_close hx [')'] [] (by rw [hprint]; rfl)
  cases xs with
  | nil =>
    cases ys with
    | nil => rfl
    | cons y ys => exact absurd h.symm (hne hys.1)
  | cons x xs =>
    cases ys with
    | nil => exact absurd h (hne hxs.1)
    | cons y ys =>
      rw [printAll, printAll, ← List.append_nil (printEach sep xs),
        ← List.append_nil (printEach sep ys)] at h
      obtain ⟨rfl, htail⟩ := print_append_inj hxs.1 hys.1 (ends_each hsep xs hends)
        (ends_each hsep ys hends) h
      obtain ⟨rfl, -⟩ := printEach_append_inj hsep hxs.2 hys.2 hends hends hnil hnil htail
      rfl

end Listed

end ScopeScript
