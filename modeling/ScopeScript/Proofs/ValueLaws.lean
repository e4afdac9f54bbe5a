import Mathlib.Data.String.Basic
import ScopeScript.Proofs.NumberOrder
import ScopeScript.Value.Operators

/-!
# Laws of equality and order

**Equality, order and printing of values fit together** (`ScopeScript.values_coherent`). Equality is
an equivalence but for what is not a number; values that are equal cannot be told apart by their
type, in a test, or in print; and values other than procedures that are of one type and are printed
alike are equal.

The four operators that compare read their answers off one ordering of the operands
(`ScopeScript.BinaryOp.apply_of_test?`), which is there for two numbers and for two texts. So the
laws of order are laws of that ordering: it turns round with its operands, it is transitive, and it
says that the operands are equal where equality does.
-/

namespace ScopeScript

/-- The value is **not a number**, but has the type of one. -/
def Value.IsNaN : Value → Prop
  | .number x => x.isNaN
  | _ => False

/-! ### Equality -/

/-- **When values are equal**: numbers by rank, closures if they are the same, and others if there
is no difference. -/
inductive Value.Equal : Value → Value → Prop
  /-- Two numbers. -/
  | number {x y} (hx : ¬ x.isNaN) (hy : ¬ y.isNaN) (h : Binary64.rank x = Binary64.rank y) :
    Equal (.number x) (.number y)
  /-- Two texts. -/
  | text {s} : Equal (.text s) (.text s)
  /-- Two truth values. -/
  | boolean {b} : Equal (.boolean b) (.boolean b)
  /-- Null, twice. -/
  | null : Equal .null .null
  /-- The builtin procedure, twice. -/
  | builtin : Equal .builtin .builtin
  /-- Two closures. -/
  | closure {c d : Closure} (htext : c.text = d.text) (hname : c.decl.name = d.decl.name)
    (hspan : c.decl.body.span = d.decl.body.span) (hframe : c.scope.frame = d.scope.frame) :
    Equal (.closure c) (.closure d)

namespace Value

variable {a b c : Value}

theorem equal_iff : a.equal b ↔ Equal a b := by
  constructor
  · intro h
    cases a <;> cases b <;> try cases h
    case number.number x y =>
      obtain ⟨hx, hy, hrank⟩ := Binary64.beq_iff.mp h
      exact .number hx hy hrank
    case text.text s t =>
      obtain rfl : s = t := of_decide_eq_true h
      exact .text
    case boolean.boolean p q =>
      obtain rfl : p = q := of_decide_eq_true h
      exact .boolean
    case null.null.refl => exact .null
    case builtin.builtin.refl => exact .builtin
    case closure.closure c d =>
      simp only [equal, Closure.same, Bool.and_eq_true, decide_eq_true_eq] at h
      exact .closure h.1.1.1 h.1.1.2 h.1.2 h.2
  · intro h
    cases h with
    | number hx hy hrank => exact Binary64.beq_iff.mpr ⟨hx, hy, hrank⟩
    | text | boolean => exact decide_eq_true rfl
    | null | builtin => rfl
    | closure htext hname hspan hframe => simp [equal, Closure.same, htext, hname, hspan, hframe]

namespace Equal

/-- Equality is **symmetric**. -/
theorem symm (h : Equal a b) : Equal b a := by
  cases h with
  | number hx hy hrank => exact .number hy hx hrank.symm
  | text => exact .text
  | boolean => exact .boolean
  | null => exact .null
  | builtin => exact .builtin
  | closure htext hname hspan hframe => exact .closure htext.symm hname.symm hspan.symm hframe.symm

/-- Equality is **transitive**. -/
theorem trans (h : Equal a b) (h' : Equal b c) : Equal a c := by
  cases h with
  | number hx _ hrank =>
    cases h' with
    | number _ hy hrank' => exact .number hx hy (hrank.trans hrank')
  | closure htext hname hspan hframe =>
    cases h' with
    | closure htext' hname' hspan' hframe' =>
      exact .closure (htext.trans htext') (hname.trans hname') (hspan.trans hspan')
        (hframe.trans hframe')
  | text | boolean | null | builtin => exact h'

end Equal

/-- Every value **is equal to itself**, unless it is not a number. -/
theorem equal_self_iff : Equal a a ↔ ¬ a.IsNaN := by
  constructor
  · intro h
    cases h with
    | number hx => exact hx
    | _ => exact not_false
  · intro h
    cases a with
    | number x => exact .number h h rfl
    | text => exact .text
    | boolean => exact .boolean
    | null => exact .null
    | builtin => exact .builtin
    | closure => exact .closure rfl rfl rfl rfl

/-- A number **decides a test** by its rank. -/
theorem truthy_number {x : Float} (hx : ¬ x.isNaN) :
    (Value.number x).truthy = decide (Binary64.rank x ≠ 0) := by
  have hcode : Binary64.code 0 = 0 := by
    rw [Binary64.zero_eq_ofCode, Binary64.code_ofCode (Nat.zero_le _)]
  have hrank : Binary64.rank 0 = 0 := by
    rw [Binary64.rank, hcode]
    cases Binary64.isNegative 0 <;> rfl
  have hzero : ¬ (0 : Float).isNaN := by
    rw [Binary64.isNaN_iff, hcode]
    exact Nat.not_lt_zero _
  have hbeq : x == 0 ↔ Binary64.rank x = 0 := by
    rw [Binary64.beq_iff, hrank]
    exact ⟨fun h => h.2.2, fun h => ⟨hx, hzero, h⟩⟩
  rw [truthy, Bool.eq_false_iff.mpr hx, Bool.not_false, Bool.and_true, decide_not,
    Bool.eq_iff_iff.mpr (hbeq.trans decide_eq_true_iff.symm)]

/-- Values that are equal **cannot be told apart** by type, in a test, or in print. -/
theorem Equal.alike (h : Equal a b) :
    a.type = b.type ∧ a.truthy = b.truthy ∧ a.render = b.render := by
  cases h with
  | number hx hy hrank =>
    refine ⟨rfl, ?_, Binary64.write_eq_iff.mpr (.inl (Binary64.beq_iff.mpr ⟨hx, hy, hrank⟩))⟩
    rw [truthy_number hx, truthy_number hy, hrank]
  | closure _ hname => exact ⟨rfl, rfl, by rw [render, render, hname]⟩
  | text | boolean | null | builtin => exact ⟨rfl, rfl, rfl⟩

/-- Values of one type that are **printed alike** are equal, unless they are procedures. -/
theorem equal_of_render (htype : a.type = b.type) (hproc : a.type ≠ .procedure) (hnan : ¬ a.IsNaN)
    (h : a.render = b.render) : Equal a b := by
  cases a <;> cases b <;> cases htype
  case number.number.refl x y =>
    rcases Binary64.write_eq_iff.mp h with h | h
    · exact equal_iff.mp h
    · exact absurd h.1 hnan
  case text.text.refl s t =>
    obtain rfl : s = t := h
    exact .text
  case boolean.boolean.refl p q =>
    cases p <;> cases q
    · exact .boolean
    · exact absurd h (by decide)
    · exact absurd h (by decide)
    · exact .boolean
  case null.null.refl => exact .null
  all_goals exact absurd rfl hproc

end Value

/-! ### The ordering of two values -/

section Order

variable {α : Type*} [LinearOrder α] {i j : α}

theorem isLT_cmp : (cmp i j).isLT ↔ i < j :=
  Ordering.isLT_iff_eq_lt.trans (cmp_eq_lt_iff i j)

theorem isGT_cmp : (cmp i j).isGT ↔ j < i :=
  Ordering.isGT_iff_eq_gt.trans (cmp_eq_gt_iff i j)

theorem isLE_cmp : (cmp i j).isLE ↔ i ≤ j :=
  Ordering.isLE_iff_ne_gt.trans ((cmp_eq_gt_iff i j).not.trans not_lt)

theorem isGE_cmp : (cmp i j).isGE ↔ j ≤ i :=
  Ordering.isGE_iff_ne_lt.trans ((cmp_eq_lt_iff i j).not.trans not_lt)

end Order

/-- How two values **are ordered**, if they can be compared: two numbers by rank, and two texts
character by character. -/
def Value.order? : Value → Value → Option (Option Ordering)
  | .number x, .number y => some (Binary64.order? x y)
  | .text s, .text t => some (some (cmp s t))
  | _, _ => none

/-- What an operator that compares **asks of the ordering**. -/
def BinaryOp.test? : BinaryOp → Option (Ordering → Bool)
  | .less => some Ordering.isLT
  | .greater => some Ordering.isGT
  | .lessEqual => some Ordering.isLE
  | .greaterEqual => some Ordering.isGE
  | _ => none

namespace BinaryOp

variable {op : BinaryOp} {test : Ordering → Bool}

/-- A comparison that asks the same of two numbers and of two texts **asks it of the ordering**. -/
theorem comparison_eq {numbers : Float → Float → Bool} {texts : String → String → Bool}
    (hnumbers : ∀ x y, numbers x y ↔ ¬ x.isNaN ∧ ¬ y.isNaN ∧
      test (cmp (Binary64.rank x) (Binary64.rank y)))
    (htexts : ∀ s t, texts s t ↔ test (cmp s t)) (a b : Value) :
    comparison op numbers texts a b =
      match a.order? b with
      | some order => .ok (.boolean (order.any test))
      | none => .error (.comparison op.symbol a.type b.type) := by
  cases a <;> cases b
  case number.number x y =>
    have hanswer : numbers x y = (Binary64.order? x y).any test :=
      Bool.eq_iff_iff.mpr ((hnumbers x y).trans Binary64.any_order?.symm)
    rw [comparison, hanswer, Value.order?]
  case text.text s t =>
    have hanswer : texts s t = test (cmp s t) := Bool.eq_iff_iff.mpr (htexts s t)
    rw [comparison, hanswer]
    rfl
  all_goals rfl

/-- **The operators that compare ask the ordering.** -/
theorem apply_of_test? (h : op.test? = some test) (a b : Value) :
    op.apply a b =
      match a.order? b with
      | some order => .ok (.boolean (order.any test))
      | none => .error (.comparison op.symbol a.type b.type) := by
  cases op <;> cases h
  case less =>
    refine comparison_eq (fun x y => ?_) (fun s t => decide_eq_true_iff.trans isLT_cmp.symm) a b
    rw [decide_eq_true_iff, Binary64.lt_iff, isLT_cmp]
  case greater =>
    refine comparison_eq (fun x y => ?_) (fun s t => decide_eq_true_iff.trans isGT_cmp.symm) a b
    rw [decide_eq_true_iff, Binary64.lt_iff, isGT_cmp, and_left_comm]
  case lessEqual =>
    refine comparison_eq (fun x y => ?_) (fun s t => ?_) a b
    · rw [decide_eq_true_iff, Binary64.le_iff, isLE_cmp]
    · rw [decide_eq_true_iff, not_lt, isLE_cmp]
  case greaterEqual =>
    refine comparison_eq (fun x y => ?_) (fun s t => ?_) a b
    · rw [decide_eq_true_iff, Binary64.le_iff, isGE_cmp, and_left_comm]
    · rw [decide_eq_true_iff, not_lt, isGE_cmp]

/-- The operator **holds** of two values. -/
def Holds (op : BinaryOp) (a b : Value) : Prop :=
  op.apply a b = .ok (.boolean true)

/-- The four operators **that compare**. -/
def comparisons : List BinaryOp :=
  [less, greater, lessEqual, greaterEqual]

theorem exists_test? (h : op ∈ comparisons) : ∃ test, op.test? = some test := by
  cases op <;> first | exact ⟨_, rfl⟩ | simp [comparisons] at h

theorem holds_iff (h : op.test? = some test) {a b : Value} {order : Option Ordering}
    (horder : a.order? b = some order) : op.Holds a b ↔ order.any test := by
  rw [Holds, apply_of_test? h, horder]
  simp

/-- Values of which a comparison holds **can be compared**. -/
theorem Holds.exists_order (h : op.test? = some test) {a b : Value} (hholds : op.Holds a b) :
    ∃ order, a.order? b = some order := by
  rw [Holds, apply_of_test? h] at hholds
  cases horder : a.order? b with
  | none =>
    rw [horder] at hholds
    cases hholds
  | some order => exact ⟨order, rfl⟩

theorem equal_holds {a b : Value} : equal.Holds a b ↔ a.equal b := by
  simp [Holds, apply]

end BinaryOp

namespace Value

variable {a b c : Value} {order : Option Ordering}

/-- The ordering **turns round** with the two values. -/
theorem order?_swap (a b : Value) :
    b.order? a = (a.order? b).map (Option.map Ordering.swap) := by
  cases a <;> cases b
  case number.number x y =>
    rw [order?, order?, Option.map_some]
    by_cases hnan : x.isNaN ∨ y.isNaN
    · rw [Binary64.order?_of_isNaN hnan, Binary64.order?_of_isNaN hnan.symm]
      rfl
    · rw [Binary64.order?_of_not hnan, Binary64.order?_of_not (mt Or.symm hnan), Option.map_some,
        cmp_swap]
  case text.text s t => rw [order?, order?, Option.map_some, Option.map_some, cmp_swap]
  all_goals rfl

/-- The ordering says **that two values are equal** where equality does. -/
theorem order?_eq_iff (h : a.order? b = some order) : order = some .eq ↔ a.equal b := by
  cases a <;> cases b <;> cases h
  case number.number x y => exact Binary64.order?_eq_iff
  case text.text s t => rw [Option.some.injEq, cmp_eq_eq_iff, equal, decide_eq_true_iff]

/-- There is none **where one of the values is not a number**. -/
theorem order?_eq_none_iff (h : a.order? b = some order) : order = none ↔ a.IsNaN ∨ b.IsNaN := by
  cases a <;> cases b <;> cases h
  case number.number x y =>
    refine ⟨fun hnone => ?_, Binary64.order?_of_isNaN⟩
    by_contra hnan
    rw [Binary64.order?_of_not hnan] at hnone
    cases hnone
  case text.text s t => exact iff_of_false nofun (not_or.mpr ⟨not_false, not_false⟩)

/-- The ordering is **transitive**. -/
theorem order?_trans (h : a.order? b = some (some .lt)) (h' : b.order? c = some (some .lt)) :
    a.order? c = some (some .lt) := by
  cases a <;> cases b <;> try cases h
  case number.number x y =>
    cases c <;> try cases h'
    case number z =>
      obtain ⟨hx, -, hlt⟩ := Binary64.lt_iff.mp (Binary64.order?_lt_iff.mp (Option.some.inj h))
      obtain ⟨-, hz, hlt'⟩ := Binary64.lt_iff.mp (Binary64.order?_lt_iff.mp (Option.some.inj h'))
      exact congrArg some (Binary64.order?_lt_iff.mpr
        (Binary64.lt_iff.mpr ⟨hx, hz, hlt.trans hlt'⟩))
  case text.text s t =>
    cases c <;> try cases h'
    case text u =>
      simp only [order?, Option.some.injEq, cmp_eq_lt_iff] at h h' ⊢
      exact h.trans h'

end Value

/-! ### Comparing two values -/

namespace BinaryOp

/-- **Two values that can be compared**: the four operators have an answer for them, and the answers
agree with each other and with equality. -/
structure Compared (a b : Value) : Prop where
  /-- Each of the four has an answer. -/
  answers : ∀ op ∈ comparisons, ∃ r, op.apply a b = .ok (.boolean r)
  /-- The first is less than the second if the second is greater than the first. -/
  converse : less.Holds a b ↔ greater.Holds b a
  /-- Less or equal is that: less, or equal. -/
  lessEqual_iff : lessEqual.Holds a b ↔ less.Holds a b ∨ equal.Holds a b
  /-- Greater or equal is that: greater, or equal. -/
  greaterEqual_iff : greaterEqual.Holds a b ↔ greater.Holds a b ∨ equal.Holds a b
  /-- The first is less than the second, equal to it, or greater, and one of the three only. -/
  trichotomy : ¬ a.IsNaN → ¬ b.IsNaN →
    (less.Holds a b ∧ ¬ equal.Holds a b ∧ ¬ greater.Holds a b) ∨
    (¬ less.Holds a b ∧ equal.Holds a b ∧ ¬ greater.Holds a b) ∨
    (¬ less.Holds a b ∧ ¬ equal.Holds a b ∧ greater.Holds a b)
  /-- If one of them is not a number, the answer is no each time, and they are not equal. -/
  unordered : a.IsNaN ∨ b.IsNaN →
    (∀ op ∈ comparisons, op.apply a b = .ok (.boolean false)) ∧ ¬ equal.Holds a b

variable {a b : Value} {order : Option Ordering}

/-- Where there is an ordering, **the operators agree**: they all read it. -/
theorem Compared.of_order? (h : a.order? b = some order) : Compared a b := by
  have hless := @holds_iff .less _ rfl _ _ _ h
  have hgreater := @holds_iff .greater _ rfl _ _ _ h
  have hlessEqual := @holds_iff .lessEqual _ rfl _ _ _ h
  have hgreaterEqual := @holds_iff .greaterEqual _ rfl _ _ _ h
  have hequal := equal_holds.trans (Value.order?_eq_iff h).symm
  have hnone := Value.order?_eq_none_iff h
  exact {
    answers := fun op hop => by
      obtain ⟨test, htest⟩ := exists_test? hop
      exact ⟨_, by rw [apply_of_test? htest, h]⟩
    converse := by
      have hswap := Value.order?_swap a b
      rw [h, Option.map_some] at hswap
      rw [hless, @holds_iff .greater _ rfl _ _ _ hswap]
      rcases order with _ | _ | _ | _ <;> simp
    lessEqual_iff := by
      rw [hlessEqual, hless, hequal]
      rcases order with _ | _ | _ | _ <;> simp
    greaterEqual_iff := by
      rw [hgreaterEqual, hgreater, hequal]
      rcases order with _ | _ | _ | _ <;> simp
    trichotomy := fun ha hb => by
      rw [hless, hgreater, hequal]
      rcases order with _ | _ | _ | _
      · exact absurd (hnone.mp rfl) (not_or.mpr ⟨ha, hb⟩)
      all_goals simp
    unordered := fun hnan => by
      obtain rfl := hnone.mpr hnan
      refine ⟨fun op hop => ?_, by simp [hequal]⟩
      obtain ⟨test, htest⟩ := exists_test? hop
      rw [apply_of_test? htest, h]
      rfl }

/-- **Two values can be compared, or not at all.** -/
theorem errors_or_compared (a b : Value) :
    (∀ op ∈ comparisons, op.apply a b = .error (.comparison op.symbol a.type b.type)) ∨
      Compared a b := by
  cases h : a.order? b with
  | none =>
    refine .inl fun op hop => ?_
    obtain ⟨test, htest⟩ := exists_test? hop
    rw [apply_of_test? htest, h]
  | some order => exact .inr (.of_order? h)

theorem less_holds_iff : less.Holds a b ↔ a.order? b = some (some .lt) := by
  constructor
  · intro h
    obtain ⟨order, horder⟩ := Holds.exists_order rfl h
    have hany := (holds_iff rfl horder).mp h
    rcases order with _ | _ | _ | _
    case some.lt => exact horder
    all_goals cases hany
  · intro h
    exact (holds_iff rfl h).mpr rfl

end BinaryOp

/-- **Equality, order and printing of values fit together.** Equality is symmetric, transitive, and
reflexive but for what is not a number, and inequality is its negation. Values that are equal have
the same type, decide tests alike and are printed alike; and values of one type other than
procedures that are printed alike are equal, unless they are not numbers. The four operators that
compare fail with a fault of the types together, or else agree with each other and with equality
(`ScopeScript.BinaryOp.Compared`); and less is transitive. -/
theorem values_coherent :
    (∀ a b : Value, a.equal b = b.equal a) ∧
    (∀ a b c : Value, a.equal b → b.equal c → a.equal c) ∧
    (∀ a : Value, a.equal a ↔ ¬ a.IsNaN) ∧
    (∀ a b : Value, a.equal b →
      a.type = b.type ∧ a.truthy = b.truthy ∧ a.render = b.render) ∧
    (∀ a b : Value, a.type = b.type → a.type ≠ .procedure → ¬ a.IsNaN → a.render = b.render →
      a.equal b) ∧
    (∀ a b : Value, BinaryOp.equal.apply a b = .ok (.boolean (a.equal b)) ∧
      BinaryOp.notEqual.apply a b = .ok (.boolean (!a.equal b))) ∧
    (∀ a b : Value, (∀ op ∈ BinaryOp.comparisons,
      op.apply a b = .error (.comparison op.symbol a.type b.type)) ∨ BinaryOp.Compared a b) ∧
    ∀ a b c : Value, BinaryOp.less.Holds a b → BinaryOp.less.Holds b c →
      BinaryOp.less.Holds a c := by
  have hsymm {a b : Value} (h : a.equal b) : b.equal a :=
    Value.equal_iff.mpr (Value.equal_iff.mp h).symm
  refine ⟨fun a b => Bool.eq_iff_iff.mpr ⟨hsymm, hsymm⟩, fun a b c h h' => ?_,
    fun a => Value.equal_iff.trans Value.equal_self_iff, fun a b h => ?_,
    fun a b htype hproc hnan h => ?_, fun a b => ⟨rfl, rfl⟩, BinaryOp.errors_or_compared,
    fun a b c h h' => ?_⟩
  · exact Value.equal_iff.mpr ((Value.equal_iff.mp h).trans (Value.equal_iff.mp h'))
  · exact (Value.equal_iff.mp h).alike
  · exact Value.equal_iff.mpr (Value.equal_of_render htype hproc hnan h)
  · exact BinaryOp.less_holds_iff.mpr
      (Value.order?_trans (BinaryOp.less_holds_iff.mp h) (BinaryOp.less_holds_iff.mp h'))

/-- The two zeros, what is not a number, and two texts of which one begins the other. -/
theorem values_coherent_zeros :
    (Value.number (Binary64.ofCode true 0)).equal (.number (Binary64.ofCode false 0)) = true ∧
      (Value.number (Binary64.ofCode true 0)).render =
        (Value.number (Binary64.ofCode false 0)).render ∧
      (Value.number Binary64.nan).equal (.number Binary64.nan) = false ∧
      BinaryOp.less.Holds (.text "") (.text "\u00e9") ∧
      BinaryOp.greater.Holds (.text "\u00e9") (.text "") := by
  obtain ⟨-, -, hself, halike, -, -, hcompared, -⟩ := values_coherent
  have hzeros : (Value.number (Binary64.ofCode true 0)).equal
      (.number (Binary64.ofCode false 0)) := by decide
  have hnan : Binary64.nan.isNaN := by decide
  have hless : BinaryOp.less.Holds (.text "") (.text "\u00e9") := rfl
  refine ⟨hzeros, (halike _ _ hzeros).2.2, ?_, hless, ?_⟩
  · exact Bool.eq_false_iff.mpr fun h => (hself _).mp h hnan
  · rcases hcompared (.text "") (.text "\u00e9") with herror | hlaws
    · cases hless.symm.trans (herror _ List.mem_cons_self)
    · exact hlaws.converse.mp hless

end ScopeScript
