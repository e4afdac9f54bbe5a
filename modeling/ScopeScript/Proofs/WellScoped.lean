import ScopeScript.Proofs.Footprint

/-!
# Well-scoped programs

A program is **well-scoped** if every name in it is used where it is in force. A declaration puts
its name in force for the statements after it in the same list; a procedure's own name and its
parameters are in force in its body; what a block declares ends with the block. This is a matter of
the text alone, and it can be decided (`ScopeScript.Program.decidableWellScoped`).

A text stays well-scoped when more names are in force.
-/

namespace ScopeScript

/-! ### Names in force -/

mutual

/-- Every name used in the expression **is in force**. -/
def Expr.WellScoped (names : List String) : Expr → Prop
  | .literal _ _ => True
  | .name id _ => id ∈ names
  | .binary _ l r _ => l.WellScoped names ∧ r.WellScoped names
  | .logical _ l r _ => l.WellScoped names ∧ r.WellScoped names
  | .unary _ e _ => e.WellScoped names
  | .call f args _ => f.WellScoped names ∧ Expr.AllWellScoped names args

/-- Every name used in the expressions is in force. -/
def Expr.AllWellScoped (names : List String) : List Expr → Prop
  | [] => True
  | e :: es => e.WellScoped names ∧ Expr.AllWellScoped names es

end

mutual

/-- Every name used in the statement **is in force where it is used**. -/
def Stmt.WellScoped (names : List String) : Stmt → Prop
  | .declare _ none _ => True
  | .declare _ (some e) _ => e.WellScoped names
  | .print e _ => e.WellScoped names
  | .block b => b.WellScoped names
  | .conditional test b none _ => test.WellScoped names ∧ b.WellScoped names
  | .conditional test b (some c) _ =>
    test.WellScoped names ∧ b.WellScoped names ∧ c.WellScoped names
  | .loop test b _ => test.WellScoped names ∧ b.WellScoped names
  | .function name params b _ => b.WellScoped (params ++ name :: names)
  | .exit e _ => e.WellScoped names
  | .expression e => e.WellScoped names

/-- Blocks start with the names in force around them. -/
def Block.WellScoped (names : List String) : Block → Prop
  | .mk ss _ => Stmt.AllWellScoped names ss

/-- **What a statement declares is in force in the statements after it.** -/
def Stmt.AllWellScoped (names : List String) : List Stmt → Prop
  | [] => True
  | s :: ss => s.WellScoped names ∧ Stmt.AllWellScoped (s.declared.toList ++ names) ss

end

theorem Block.WellScoped.statements {names : List String} :
    ∀ {b : Block}, b.WellScoped names → Stmt.AllWellScoped names b.statements
  | .mk _ _, h => h

/-- A **well-scoped program**: at its start only the builtin procedure has a name. -/
def Program.WellScoped (p : Program) : Prop :=
  Stmt.AllWellScoped [Keyword.print.spelling] p.statements

/-! ### Deciding it -/

mutual

instance Expr.decidableWellScoped (names : List String) :
    (e : Expr) → Decidable (e.WellScoped names)
  | .literal _ _ => inferInstanceAs (Decidable True)
  | .name id _ => inferInstanceAs (Decidable (id ∈ names))
  | .binary _ l r _ =>
    have := Expr.decidableWellScoped names l
    have := Expr.decidableWellScoped names r
    inferInstanceAs (Decidable (l.WellScoped names ∧ r.WellScoped names))
  | .logical _ l r _ =>
    have := Expr.decidableWellScoped names l
    have := Expr.decidableWellScoped names r
    inferInstanceAs (Decidable (l.WellScoped names ∧ r.WellScoped names))
  | .unary _ e _ => Expr.decidableWellScoped names e
  | .call f args _ =>
    have := Expr.decidableWellScoped names f
    have := Expr.decidableAllWellScoped names args
    inferInstanceAs (Decidable (f.WellScoped names ∧ Expr.AllWellScoped names args))

instance Expr.decidableAllWellScoped (names : List String) :
    (es : List Expr) → Decidable (Expr.AllWellScoped names es)
  | [] => inferInstanceAs (Decidable True)
  | e :: es =>
    have := Expr.decidableWellScoped names e
    have := Expr.decidableAllWellScoped names es
    inferInstanceAs (Decidable (e.WellScoped names ∧ Expr.AllWellScoped names es))

end

mutual

instance Stmt.decidableWellScoped (names : List String) :
    (s : Stmt) → Decidable (s.WellScoped names)
  | .declare _ none _ => inferInstanceAs (Decidable True)
  | .declare _ (some e) _ => inferInstanceAs (Decidable (e.WellScoped names))
  | .print e _ => inferInstanceAs (Decidable (e.WellScoped names))
  | .block b => Block.decidableWellScoped names b
  | .conditional test b none _ =>
    have := Block.decidableWellScoped names b
    inferInstanceAs (Decidable (test.WellScoped names ∧ b.WellScoped names))
  | .conditional test b (some c) _ =>
    have := Block.decidableWellScoped names b
    have := Block.decidableWellScoped names c
    inferInstanceAs (Decidable (test.WellScoped names ∧ b.WellScoped names ∧ c.WellScoped names))
  | .loop test b _ =>
    have := Block.decidableWellScoped names b
    inferInstanceAs (Decidable (test.WellScoped names ∧ b.WellScoped names))
  | .function name params b _ => Block.decidableWellScoped (params ++ name :: names) b
  | .exit e _ => inferInstanceAs (Decidable (e.WellScoped names))
  | .expression e => inferInstanceAs (Decidable (e.WellScoped names))

instance Block.decidableWellScoped (names : List String) :
    (b : Block) → Decidable (b.WellScoped names)
  | .mk ss _ => Stmt.decidableAllWellScoped names ss

instance Stmt.decidableAllWellScoped (names : List String) :
    (ss : List Stmt) → Decidable (Stmt.AllWellScoped names ss)
  | [] => inferInstanceAs (Decidable True)
  | s :: ss =>
    have := Stmt.decidableWellScoped names s
    have := Stmt.decidableAllWellScoped (s.declared.toList ++ names) ss
    inferInstanceAs (Decidable (s.WellScoped names ∧
      Stmt.AllWellScoped (s.declared.toList ++ names) ss))

end

instance Program.decidableWellScoped (p : Program) : Decidable p.WellScoped :=
  Stmt.decidableAllWellScoped _ p.statements

/-! ### More names -/

theorem subset_append_append (declared : List String) {names names' : List String}
    (hsub : names ⊆ names') : declared ++ names ⊆ declared ++ names' :=
  List.append_subset.mpr ⟨List.subset_append_left .., List.subset_append_of_subset_right _ hsub⟩

mutual

theorem Expr.WellScoped.mono {names names' : List String} (hsub : names ⊆ names') :
    ∀ {e : Expr}, e.WellScoped names → e.WellScoped names'
  | .literal _ _, _ => trivial
  | .name _ _, h => hsub h
  | .binary _ _ _ _, ⟨hl, hr⟩ => ⟨Expr.WellScoped.mono hsub hl, Expr.WellScoped.mono hsub hr⟩
  | .logical _ _ _ _, ⟨hl, hr⟩ => ⟨Expr.WellScoped.mono hsub hl, Expr.WellScoped.mono hsub hr⟩
  | .unary _ e _, h => Expr.WellScoped.mono hsub (e := e) h
  | .call _ _ _, ⟨hf, hargs⟩ =>
    ⟨Expr.WellScoped.mono hsub hf, Expr.AllWellScoped.mono hsub hargs⟩

theorem Expr.AllWellScoped.mono {names names' : List String} (hsub : names ⊆ names') :
    ∀ {es : List Expr}, Expr.AllWellScoped names es → Expr.AllWellScoped names' es
  | [], _ => trivial
  | _ :: _, ⟨he, hes⟩ => ⟨Expr.WellScoped.mono hsub he, Expr.AllWellScoped.mono hsub hes⟩

end

mutual

/-- A statement stays well-scoped **when more names are in force**. -/
theorem Stmt.WellScoped.mono : ∀ {s : Stmt} {names names' : List String}, names ⊆ names' →
    s.WellScoped names → s.WellScoped names'
  | .declare _ none _, _, _, _, _ => trivial
  | .declare _ (some _) _, _, _, hsub, h => Expr.WellScoped.mono hsub h
  | .print _ _, _, _, hsub, h => Expr.WellScoped.mono hsub h
  | .block b, _, _, hsub, h => Block.WellScoped.mono (b := b) hsub h
  | .conditional _ _ none _, _, _, hsub, ⟨htest, hb⟩ =>
    ⟨htest.mono hsub, Block.WellScoped.mono hsub hb⟩
  | .conditional _ _ (some _) _, _, _, hsub, ⟨htest, hb, hc⟩ =>
    ⟨htest.mono hsub, Block.WellScoped.mono hsub hb, Block.WellScoped.mono hsub hc⟩
  | .loop _ _ _, _, _, hsub, ⟨htest, hb⟩ => ⟨htest.mono hsub, Block.WellScoped.mono hsub hb⟩
  | .function _ _ b _, _, _, hsub, h =>
    Block.WellScoped.mono (b := b) (subset_append_append _ (List.cons_subset_cons _ hsub)) h
  | .exit _ _, _, _, hsub, h => Expr.WellScoped.mono hsub h
  | .expression _, _, _, hsub, h => Expr.WellScoped.mono hsub h

theorem Block.WellScoped.mono : ∀ {b : Block} {names names' : List String}, names ⊆ names' →
    b.WellScoped names → b.WellScoped names'
  | .mk ss _, _, _, hsub, h => (show Stmt.AllWellScoped _ ss from h).mono hsub

theorem Stmt.AllWellScoped.mono : ∀ {ss : List Stmt} {names names' : List String},
    names ⊆ names' → Stmt.AllWellScoped names ss → Stmt.AllWellScoped names' ss
  | [], _, _, _, _ => trivial
  | _ :: _, _, _, hsub, ⟨hs, hss⟩ =>
    ⟨Stmt.WellScoped.mono hsub hs,
      Stmt.AllWellScoped.mono (subset_append_append _ hsub) hss⟩

end

end ScopeScript
