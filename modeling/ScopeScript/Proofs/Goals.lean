import ScopeScript.Proofs.PlainGrammar

/-!
# What is still to come

Of a list of tokens read from the left, what has been read so far settles what may follow. This file
reads with **a stack of goals**: each goal stands for what is still to come, the next token either
meets the goal on top, which leaves other goals in its place, or passes it over if it is one that
may be left out (`ScopeScript.Goal.advance`).

Whatever meets the goals that are left completes what has been read
(`ScopeScript.Goal.allMetBy_of_advanceAll`), and there is always something that does
(`ScopeScript.Goal.exists_allMetBy`).
-/

namespace ScopeScript

/-! ### Goals -/

/-- Lists of items in parentheses. -/
inductive Items where
  /-- The arguments of a call. -/
  | arguments
  /-- The parameters of a procedure. -/
  | parameters

namespace Items

/-- The nonterminal for such a list. -/
def list : Items → Nonterminal
  | arguments => .arguments
  | parameters => .parameters

/-- The nonterminal for such a list with one item at least. -/
def separated : Items → Nonterminal
  | arguments => .expressions
  | parameters => .names

theorem generates_nil : ∀ items : Items, Generates items.list []
  | arguments => .noArguments
  | parameters => .noParameters

theorem generates_list {u : List Token.Kind} :
    ∀ {items : Items}, Generates items.separated u → Generates items.list u
  | arguments, h => .someArguments h
  | parameters, h => .someParameters h

end Items

/-- **What is still to come.** -/
inductive Goal where
  /-- An expression. -/
  | operand
  /-- More of an expression: argument lists and operators with their operands, or nothing. -/
  | more
  /-- A mark. -/
  | mark (m : Mark)
  /-- Items, or none, and the parenthesis behind them. -/
  | items (list : Items)
  /-- More items, or none, and the parenthesis behind them. -/
  | moreItems (list : Items)
  /-- A name. -/
  | name
  /-- A first value with its sign, or nothing. -/
  | initial
  /-- A block. -/
  | block
  /-- Another branch with its word, or nothing. -/
  | alternative
  /-- A semicolon, or nothing. -/
  | ending
  /-- Statements, and the brace behind them. -/
  | inBlock
  /-- Statements up to the end. -/
  | program

namespace Goal

/-- The goals that are left when an expression **begins** with a token. -/
def ofOperand : Token.Kind → Option (List Goal)
  | .number _ | .text _ | .identifier _ | .keyword .print => some [more]
  | .mark .leftParen => some [operand, mark .rightParen, more]
  | .operator .minus | .operator .bang => some [operand]
  | _ => none

/-- The goals that are left when an expression **goes on** with a token. -/
def ofMore : Token.Kind → Option (List Goal)
  | .mark .leftParen => some [items .arguments, more]
  | k => if k.infixOp?.isSome then some [operand] else none

/-- The goal for one item. -/
def item : Items → Goal
  | .arguments => operand
  | .parameters => name

/-- The goals that are left when an item **begins** with a token. -/
def ofItem : Items → Token.Kind → Option (List Goal)
  | .arguments, k => ofOperand k
  | .parameters, .identifier _ => some []
  | .parameters, _ => none

/-- The goals that are left when a statement **begins** with a token. -/
def ofStatement : Token.Kind → Option (List Goal)
  | .keyword .declare => some [name, initial]
  | .keyword .print => some [operand]
  | .keyword .ifK => some [operand, block, alternative]
  | .keyword .whileK => some [operand, block]
  | .keyword .function =>
    some [name, mark .leftParen, items .parameters, block]
  | .keyword .returnK => some [operand]
  | .mark .leftBrace => some [inBlock]
  | k => ofOperand k

/-- The goals that are left of a goal when a token **meets it**. -/
def step : Goal → Token.Kind → Option (List Goal)
  | operand => ofOperand
  | more => ofMore
  | mark m => fun k => if k = .mark m then some [] else none
  | items list => fun
    | .mark .rightParen => some []
    | k => (ofItem list k).map (· ++ [moreItems list])
  | moreItems list => fun
    | .mark .rightParen => some []
    | .mark .comma => some [item list, moreItems list]
    | _ => none
  | name => fun
    | .identifier _ => some []
    | _ => none
  | initial => fun
    | .mark .assign => some [operand]
    | _ => none
  | block => fun
    | .mark .leftBrace => some [inBlock]
    | _ => none
  | alternative => fun
    | .keyword .elseK => some [block]
    | _ => none
  | ending => fun
    | .mark .semicolon => some []
    | _ => none
  | inBlock => fun
    | .mark .rightBrace => some []
    | k => (ofStatement k).map (· ++ [ending, inBlock])
  | program => fun k => (ofStatement k).map (· ++ [ending, program])

theorem step_of_unaryOp? {k : Token.Kind} {op : UnaryOp} (hop : k.unaryOp? = some op) :
    operand.step k = some [operand] := by
  cases k with
  | operator op => cases op <;> first | rfl | contradiction
  | _ => contradiction

theorem step_of_infixOp? {k : Token.Kind} {op : InfixOp} (hop : k.infixOp? = some op) :
    more.step k = some [operand] := by
  cases k with
  | operator op => cases op <;> first | rfl | contradiction
  | keyword w => cases w <;> first | rfl | contradiction
  | _ => contradiction

/-- The end of the input **meets no goal**. -/
theorem step_endOfInput (g : Goal) : g.step .endOfInput = none := by
  cases g with
  | items list => cases list <;> rfl
  | _ => rfl

/-- A goal that **may be left out**. -/
def optional : Goal → Bool
  | more | initial | alternative | ending => true
  | _ => false

/-- A goal that may be left **at the end**. -/
def mayEnd : Goal → Bool
  | program => true
  | g => g.optional

/-- The goals that are left when **a token comes next**, if it may. -/
def advance : List Goal → Token.Kind → Option (List Goal)
  | [], _ => none
  | g :: gs, k =>
    match g.step k with
    | some left => some (left ++ gs)
    | none => if g.optional then advance gs k else none

/-- The goals that are left when **tokens come next**, if they may. -/
def advanceAll : List Goal → List Token.Kind → Option (List Goal)
  | gs, [] => some gs
  | gs, k :: ks => (advance gs k).bind (advanceAll · ks)

variable {g : Goal} {gs gs' left : List Goal} {k : Token.Kind} {u ks : List Token.Kind}

theorem advance_of_step (h : g.step k = some left) (gs : List Goal) :
    advance (g :: gs) k = some (left ++ gs) := by
  rw [advance, h]

theorem advance_of_optional (hg : g.optional = true) (h : g.step k = none) (gs : List Goal) :
    advance (g :: gs) k = advance gs k := by
  rw [advance, h]
  exact if_pos hg

/-- **What comes next meets the goal on top** or is left to the others. -/
theorem advance_cons_eq_some (h : advance (g :: gs) k = some gs') :
    (∃ left, g.step k = some left ∧ gs' = left ++ gs) ∨
      g.step k = none ∧ g.optional = true ∧ advance gs k = some gs' := by
  rw [advance] at h
  cases hstep : g.step k with
  | some left =>
    rw [hstep] at h
    exact .inl ⟨left, rfl, (Option.some.inj h).symm⟩
  | none =>
    rw [hstep] at h
    by_cases hg : g.optional = true
    · exact .inr ⟨rfl, hg, (if_pos hg).symm.trans h⟩
    · exact absurd ((if_neg hg).symm.trans h) nofun

/-! ### What meets a goal -/

/-- **Tokens of these kinds meet a goal**, all of them together. -/
def MetBy : Goal → List Token.Kind → Prop
  | operand, u => Generates .expression u
  | more, u => ∀ v, Generates .expression v → Generates .expression (v ++ u)
  | mark m, u => u = [.mark m]
  | items list, u => ∃ v, u = v ++ [.mark .rightParen] ∧ Generates list.list v
  | moreItems list, u => ∃ v, u = v ++ [.mark .rightParen] ∧
    (v = [] ∨ ∃ w, v = .mark .comma :: w ∧ Generates list.separated w)
  | name, u => ∃ id, u = [.identifier id]
  | initial, u => u = [] ∨ ∃ v, u = .mark .assign :: v ∧ Generates .expression v
  | block, u => Generates .block u
  | alternative, u => u = [] ∨ ∃ v, u = .keyword .elseK :: v ∧ Generates .block v
  | ending, u => u = [] ∨ u = [.mark .semicolon]
  | inBlock, u => ∃ v, u = v ++ [.mark .rightBrace] ∧ Generates .statements v
  | program, u => Generates .statements u

/-- Tokens of these kinds meet the goals **one after the other**. -/
def AllMetBy : List Goal → List Token.Kind → Prop
  | [], u => u = []
  | g :: gs, u => ∃ v w, u = v ++ w ∧ g.MetBy v ∧ AllMetBy gs w

theorem allMetBy_singleton : AllMetBy [g] u ↔ g.MetBy u := by
  simp [AllMetBy]

theorem allMetBy_append :
    AllMetBy (gs ++ gs') u ↔ ∃ v w, u = v ++ w ∧ AllMetBy gs v ∧ AllMetBy gs' w := by
  induction gs generalizing u with
  | nil =>
    constructor
    · exact fun h => ⟨[], u, rfl, rfl, h⟩
    · rintro ⟨_, w, rfl, rfl, h⟩
      exact h
  | cons g gs ih =>
    simp only [List.cons_append, AllMetBy, ih]
    constructor
    · rintro ⟨v, _, rfl, hv, w, w', rfl, hw, hw'⟩
      exact ⟨v ++ w, w', (List.append_assoc ..).symm, ⟨v, w, rfl, hv, hw⟩, hw'⟩
    · rintro ⟨_, w', rfl, ⟨v, w, rfl, hv, hw⟩, hw'⟩
      exact ⟨v, w ++ w', List.append_assoc .., hv, w, w', rfl, hw, hw'⟩

/-- What meets the goals left by the **first token of an expression** completes the expression. -/
theorem generates_of_ofOperand (h : ofOperand k = some left) (hu : AllMetBy left u) :
    Generates .expression (k :: u) := by
  have hprimary : ∀ {k}, k.isPrimary = true → AllMetBy [more] u → Generates .expression (k :: u) :=
    fun hk hu => allMetBy_singleton.mp hu _ (.expression_of_primary (.single hk))
  unfold ofOperand at h
  split at h
  · cases h
    exact hprimary rfl hu
  · cases h
    exact hprimary rfl hu
  · cases h
    exact hprimary rfl hu
  · cases h
    exact hprimary rfl hu
  · cases h
    obtain ⟨e, _, rfl, he, _, m, rfl, rfl, hm⟩ := hu
    have hparens := Generates.expression_of_primary (.parentheses he)
    simpa using allMetBy_singleton.mp hm _ hparens
  · cases h
    exact (allMetBy_singleton.mp hu).sign rfl
  · cases h
    exact (allMetBy_singleton.mp hu).sign rfl
  · contradiction

/-- What meets the goals left by the **first token of a statement** completes the statement. -/
theorem generates_of_ofStatement (h : ofStatement k = some left) (hu : AllMetBy left u) :
    Generates .bare (k :: u) := by
  unfold ofStatement at h
  split at h
  · cases h
    obtain ⟨_, _, rfl, ⟨id, rfl⟩, hi⟩ := hu
    rcases allMetBy_singleton.mp hi with rfl | ⟨v, rfl, hv⟩
    · exact .declare
    · exact .declareAs hv
  · cases h
    exact .print (allMetBy_singleton.mp hu)
  · cases h
    obtain ⟨test, _, rfl, htest, b, _, rfl, hb, helse⟩ := hu
    rcases allMetBy_singleton.mp helse with rfl | ⟨c, rfl, hc⟩
    · rw [List.append_nil]
      exact .conditional htest hb
    · rw [← List.append_assoc]
      exact .alternative htest hb hc
  · cases h
    obtain ⟨test, b, rfl, htest, hb⟩ := hu
    exact .loop htest (allMetBy_singleton.mp hb)
  · cases h
    obtain ⟨_, _, rfl, ⟨id, rfl⟩, _, _, rfl, rfl, _, b, rfl, ⟨params, rfl, hparams⟩, hb⟩ := hu
    have hfunction : Generates .bare _ :=
      @Generates.function id _ _ hparams (allMetBy_singleton.mp hb)
    simpa using hfunction
  · cases h
    exact .exit (allMetBy_singleton.mp hu)
  · cases h
    obtain ⟨ss, rfl, hss⟩ := allMetBy_singleton.mp hu
    exact .blockAlone (.block hss)
  · next hprint _ _ _ _ _ =>
    refine .expressionAlone (generates_of_ofOperand h hu) ?_
    simpa using hprint

/-- An item, and more of them. -/
theorem generates_item {list : Items} {v w : List Token.Kind} (hv : (item list).MetBy v)
    (hw : w = [] ∨ ∃ w', w = .mark .comma :: w' ∧ Generates list.separated w') :
    Generates list.separated (v ++ w) := by
  cases list with
  | arguments =>
    rcases hw with rfl | ⟨w, rfl, hw⟩
    · rw [List.append_nil]
      exact .oneExpression hv
    · exact .moreExpressions hv hw
  | parameters =>
    obtain ⟨id, rfl⟩ := hv
    rcases hw with rfl | ⟨w, rfl, hw⟩
    · exact .oneName
    · exact .moreNames hw

/-- What meets the goals left by the **first token of an item** completes the item; it may be
followed by more of them. -/
theorem generates_of_ofItem {list : Items} (h : ofItem list k = some left)
    (hu : AllMetBy (left ++ [moreItems list]) u) : (items list).MetBy (k :: u) := by
  obtain ⟨v, _, rfl, hv, hmore⟩ := allMetBy_append.mp hu
  obtain ⟨w, rfl, hw⟩ := allMetBy_singleton.mp hmore
  refine ⟨k :: v ++ w, by simp, Items.generates_list (generates_item ?_ hw)⟩
  cases list with
  | arguments => exact generates_of_ofOperand h hv
  | parameters =>
    cases k with
    | identifier id =>
      cases h
      obtain rfl : v = [] := hv
      exact ⟨id, rfl⟩
    | _ => contradiction

/-- Statements may be **put before** statements, one at a time. -/
theorem generates_cons_statement (h : ofStatement k = some left)
    (hu : AllMetBy (left ++ [ending]) u) : Generates .statement (k :: u) := by
  obtain ⟨v, w, rfl, hv, hw⟩ := allMetBy_append.mp hu
  have hbare := generates_of_ofStatement h hv
  rcases allMetBy_singleton.mp hw with rfl | rfl
  · rw [List.append_nil]
    exact .plain hbare
  · exact .terminated hbare

/-- **A token and what meets the goals that it leaves meet the goal together.** -/
theorem metBy_of_step (h : g.step k = some left) (hu : AllMetBy left u) : g.MetBy (k :: u) := by
  have hstatement : ∀ {g}, (ofStatement k).map (· ++ [ending, g]) = some left →
      ∃ v w, u = v ++ w ∧ Generates .statement (k :: v) ∧ g.MetBy w := by
    intro g h
    obtain ⟨left, hleft, rfl⟩ := Option.map_eq_some_iff.mp h
    rw [List.append_cons] at hu
    obtain ⟨v, w, rfl, hv, hw⟩ := allMetBy_append.mp hu
    exact ⟨v, w, rfl, generates_cons_statement hleft hv, allMetBy_singleton.mp hw⟩
  cases g with
  | operand => exact generates_of_ofOperand h hu
  | more =>
    intro v hv
    simp only [step, ofMore] at h
    split at h
    · cases h
      obtain ⟨_, m, rfl, ⟨args, rfl, hargs⟩, hm⟩ := hu
      have hcall := allMetBy_singleton.mp hm _ (hv.callBehind hargs)
      simpa using hcall
    · obtain ⟨hop, h⟩ := Option.ite_none_right_eq_some.mp h
      cases h
      obtain ⟨op, hop⟩ := Option.isSome_iff_exists.mp hop
      exact hv.join hop (allMetBy_singleton.mp hu)
  | mark m =>
    obtain ⟨heq, hleft⟩ := Option.ite_none_right_eq_some.mp h
    cases hleft
    obtain rfl : u = [] := hu
    rw [heq]
    rfl
  | items list =>
    simp only [step] at h
    split at h
    · cases h
      obtain rfl : u = [] := hu
      exact ⟨[], rfl, Items.generates_nil _⟩
    · obtain ⟨left, hleft, rfl⟩ := Option.map_eq_some_iff.mp h
      exact generates_of_ofItem hleft hu
  | moreItems list =>
    simp only [step] at h
    split at h
    · cases h
      obtain rfl : u = [] := hu
      exact ⟨[], rfl, .inl rfl⟩
    · cases h
      obtain ⟨v, _, rfl, hv, hmore⟩ := hu
      obtain ⟨w, rfl, hw⟩ := allMetBy_singleton.mp hmore
      refine ⟨.mark .comma :: (v ++ w), by simp, .inr ⟨v ++ w, rfl, ?_⟩⟩
      exact generates_item hv hw
    · contradiction
  | name =>
    simp only [step] at h
    split at h
    · cases h
      obtain rfl : u = [] := hu
      exact ⟨_, rfl⟩
    · contradiction
  | initial =>
    simp only [step] at h
    split at h
    · cases h
      exact .inr ⟨u, rfl, allMetBy_singleton.mp hu⟩
    · contradiction
  | block =>
    simp only [step] at h
    split at h
    · cases h
      obtain ⟨v, rfl, hv⟩ := allMetBy_singleton.mp hu
      exact .block hv
    · contradiction
  | alternative =>
    simp only [step] at h
    split at h
    · cases h
      exact .inr ⟨u, rfl, allMetBy_singleton.mp hu⟩
    · contradiction
  | ending =>
    simp only [step] at h
    split at h
    · cases h
      obtain rfl : u = [] := hu
      exact .inr rfl
    · contradiction
  | inBlock =>
    simp only [step] at h
    split at h
    · cases h
      obtain rfl : u = [] := hu
      exact ⟨[], rfl, .noStatements⟩
    · obtain ⟨v, _, rfl, hv, w, rfl, hw⟩ := hstatement h
      exact ⟨k :: v ++ w, by simp, .moreStatements hv hw⟩
  | program =>
    obtain ⟨v, w, rfl, hv, hw⟩ := hstatement h
    exact .moreStatements hv hw

/-- A goal that may be left out is met **by nothing**. -/
theorem metBy_nil (h : g.mayEnd = true) : g.MetBy [] := by
  cases g with
  | more => exact fun v hv => (List.append_nil v).symm ▸ hv
  | initial | alternative | ending => exact .inl rfl
  | program => exact .noStatements
  | _ => contradiction

/-- **There is something that meets a goal.** -/
theorem exists_metBy : ∀ g : Goal, ∃ u, g.MetBy u
  | operand => ⟨_, .expression_of_primary (.single (k := .keyword .print) rfl)⟩
  | more => ⟨[], metBy_nil rfl⟩
  | mark m => ⟨[.mark m], rfl⟩
  | items list => ⟨_, [], rfl, list.generates_nil⟩
  | moreItems _ => ⟨_, [], rfl, .inl rfl⟩
  | name => ⟨_, "", rfl⟩
  | initial => ⟨[], metBy_nil rfl⟩
  | block => ⟨_, .block .noStatements⟩
  | alternative => ⟨[], metBy_nil rfl⟩
  | ending => ⟨[], metBy_nil rfl⟩
  | inBlock => ⟨_, [], rfl, .noStatements⟩
  | program => ⟨[], metBy_nil rfl⟩

theorem exists_allMetBy (gs : List Goal) : ∃ u, AllMetBy gs u := by
  induction gs with
  | nil => exact ⟨[], rfl⟩
  | cons g gs ih =>
    obtain ⟨v, hv⟩ := g.exists_metBy
    obtain ⟨w, hw⟩ := ih
    exact ⟨v ++ w, v, w, rfl, hv, hw⟩

/-- A token and what meets the goals that it leaves meet all goals together. -/
theorem allMetBy_of_advance (h : advance gs k = some gs') (hu : AllMetBy gs' u) :
    AllMetBy gs (k :: u) := by
  induction gs with
  | nil => contradiction
  | cons g gs ih =>
    rcases advance_cons_eq_some h with ⟨left, hleft, rfl⟩ | ⟨-, hg, hadvance⟩
    · obtain ⟨v, w, rfl, hv, hw⟩ := allMetBy_append.mp hu
      exact ⟨k :: v, w, rfl, metBy_of_step hleft hv, hw⟩
    · have hnil : g.MetBy [] := metBy_nil (by cases g <;> trivial)
      exact ⟨[], k :: u, rfl, hnil, ih hadvance⟩

/-- **What meets the goals that are left completes what has been read.** -/
theorem allMetBy_of_advanceAll (h : advanceAll gs ks = some gs') (hu : AllMetBy gs' u) :
    AllMetBy gs (ks ++ u) := by
  induction ks generalizing gs with
  | nil =>
    cases h
    exact hu
  | cons k ks ih =>
    obtain ⟨gs₁, hadvance, hall⟩ := Option.bind_eq_some_iff.mp h
    exact allMetBy_of_advance hadvance (ih hall)

end Goal

end ScopeScript
