import ScopeScript.Proofs.Goals

/-!
# What may come next

Each token is taken in one way only when tokens are read with goals. **Nothing that the grammar
accepts is missed** by that (`ScopeScript.Goal.predicts_of_generates`), although the grammar may
have several ways: where a parenthesis or a minus behind an expression might begin a statement, it
goes on with the expression, and whatever may follow in the first case may follow in the second
(`ScopeScript.Goal.ForStatements.accepts_more`).

So what may come next is the same for the goals as for the grammar: a token that may not come next
is one that nothing accepted goes on with (`ScopeScript.Goal.not_generates_of_advance`).
-/

namespace ScopeScript

namespace Goal

variable {g : Goal} {gs gs' left : List Goal} {k : Token.Kind} {u ks : List Token.Kind}

/-! ### Accepting -/

/-- **Tokens of these kinds are accepted**: each of them may come next, and what is left at the end
may be left. -/
def Accepts : List Goal → List Token.Kind → Prop
  | gs, [] => gs.all mayEnd = true
  | gs, k :: ks => ∃ gs', advance gs k = some gs' ∧ Accepts gs' ks

theorem accepts_of_step (h : g.step k = some left) (hks : Accepts (left ++ gs) ks) :
    Accepts (g :: gs) (k :: ks) :=
  ⟨_, advance_of_step h gs, hks⟩

theorem accepts_mark {m : Mark} (h : Accepts gs ks) : Accepts (mark m :: gs) (.mark m :: ks) :=
  accepts_of_step (if_pos rfl) h

/-- A goal may be left out **if nothing that may come next meets it**. -/
theorem accepts_of_optional (hg : g.optional = true)
    (hnone : ∀ k gs', advance gs k = some gs' → g.step k = none) (h : Accepts gs ks) :
    Accepts (g :: gs) ks := by
  cases ks with
  | nil =>
    have hend : g.mayEnd = true := by cases g <;> trivial
    exact Bool.and_eq_true_iff.mpr ⟨hend, h⟩
  | cons k ks =>
    obtain ⟨gs', hadvance, hks⟩ := h
    exact ⟨gs', (advance_of_optional hg (hnone k gs' hadvance) gs).trans hadvance, hks⟩

theorem accepts_append_iff {ks' : List Token.Kind} (h : advanceAll gs ks = some gs') :
    Accepts gs (ks ++ ks') ↔ Accepts gs' ks' := by
  induction ks generalizing gs with
  | nil =>
    cases h
    rfl
  | cons k ks ih =>
    obtain ⟨gs₁, hadvance, hall⟩ := Option.bind_eq_some_iff.mp h
    refine Iff.trans ⟨fun ⟨gs₂, hadvance', hks⟩ => ?_, fun hks => ⟨gs₁, hadvance, hks⟩⟩ (ih hall)
    cases hadvance.symm.trans hadvance'
    exact hks

/-- What comes next meets one of the first goals, **whatever is below them**, or is left to what is
below them, whatever that is. -/
theorem advance_append (h : advance (gs ++ gs') k = some left) :
    (∃ top, left = top ++ gs' ∧ ∀ below, advance (gs ++ below) k = some (top ++ below)) ∨
      advance gs' k = some left ∧ ∀ below, advance (gs ++ below) k = advance below k := by
  induction gs with
  | nil => exact .inr ⟨h, fun _ => rfl⟩
  | cons g gs ih =>
    rcases advance_cons_eq_some h with ⟨top, htop, rfl⟩ | ⟨hnone, hg, hadvance⟩
    · refine .inl ⟨top ++ gs, (List.append_assoc ..).symm, fun below => ?_⟩
      rw [List.append_assoc]
      exact advance_of_step htop _
    · have hbelow : ∀ below, advance (g :: gs ++ below) k = advance (gs ++ below) k :=
        fun below => advance_of_optional hg hnone _
      simp only [hbelow]
      exact ih hadvance

/-- **Goals below others may be exchanged** for goals that accept as much. -/
theorem accepts_below {below below' : List Goal}
    (hbelow : ∀ ks, Accepts below ks → Accepts below' ks) (h : Accepts (gs ++ below) ks) :
    Accepts (gs ++ below') ks := by
  induction ks generalizing gs with
  | nil =>
    obtain ⟨hgs, hend⟩ := Bool.and_eq_true_iff.mp (List.all_append.symm.trans h)
    exact List.all_append.trans (Bool.and_eq_true_iff.mpr ⟨hgs, hbelow [] hend⟩)
  | cons k ks ih =>
    obtain ⟨left, hadvance, hks⟩ := h
    rcases advance_append hadvance with ⟨top, rfl, htop⟩ | ⟨hleft, hsame⟩
    · exact ⟨_, htop below', ih hks⟩
    · -- the token is left to what is below
      obtain ⟨left', hleft', hks'⟩ := hbelow (k :: ks) ⟨left, hleft, hks⟩
      exact ⟨left', (hsame below').trans hleft', hks'⟩

/-! ### What may be left out -/

/-- The first token of a statement is none that **a part left out** would begin with. -/
theorem step_eq_none_of_ofStatement (h : ofStatement k = some left) :
    ending.step k = none ∧ initial.step k = none ∧ alternative.step k = none := by
  cases k with
  | keyword w => cases w <;> first | exact ⟨rfl, rfl, rfl⟩ | contradiction
  | operator op => exact ⟨rfl, rfl, rfl⟩
  | mark m => cases m <;> first | exact ⟨rfl, rfl, rfl⟩ | contradiction
  | _ => exact ⟨rfl, rfl, rfl⟩

/-- A statement that an expression could go on with begins **with a parenthesis or a minus**. -/
theorem eq_of_ofMore (h : ofMore k = some left) (hs : ofStatement k = some gs) :
    k = .mark .leftParen ∨ k = .operator .minus := by
  cases k with
  | keyword w => cases w <;> contradiction
  | operator op => cases op <;> first | exact .inr rfl | contradiction
  | mark m => cases m <;> first | exact .inl rfl | contradiction
  | _ => contradiction

theorem items_step {list : Items} (h : ofItem list k = some left) :
    (items list).step k = some (left ++ [moreItems list]) := by
  have hk : k ≠ .mark .rightParen := by
    rintro rfl
    cases list <;> contradiction
  simp only [step, h]
  rfl

/-- A goal for **statements** up to their end. -/
inductive ForStatements : Goal → Prop
  /-- Statements of a program. -/
  | program : ForStatements program
  /-- Statements of a block. -/
  | inBlock : ForStatements inBlock

/-- Where statements are to come, a token **ends them or begins one**. -/
theorem ForStatements.advance_eq_some (hg : g.ForStatements) (h : advance (g :: gs) k = some gs') :
    k = .mark .rightBrace ∧ g = .inBlock ∧ gs' = gs ∨
      ∃ left, ofStatement k = some left ∧ gs' = left ++ ending :: g :: gs := by
  have hstep : ∀ g', advance (g :: gs) k = some gs' → g = g' →
      (ofStatement k).map (· ++ [ending, g']) = g.step k → g.optional = false →
      ∃ left, ofStatement k = some left ∧ gs' = left ++ ending :: g' :: gs := by
    rintro g' h rfl heq hopt
    rcases advance_cons_eq_some h with ⟨_, hleft, rfl⟩ | ⟨-, h, -⟩
    · obtain ⟨first, hfirst, rfl⟩ := Option.map_eq_some_iff.mp (heq.trans hleft)
      exact ⟨first, hfirst, by simp⟩
    · exact absurd (hopt.symm.trans h) nofun
  cases hg with
  | program => exact .inr (hstep _ h rfl rfl rfl)
  | inBlock =>
    by_cases hk : k = .mark .rightBrace
    · subst hk
      exact .inl ⟨rfl, rfl, (Option.some.inj h).symm⟩
    · refine .inr (hstep _ h rfl ?_ rfl)
      simp only [step]

theorem ForStatements.accepts_of_ofStatement (hg : g.ForStatements) (h : ofStatement k = some left)
    (hks : Accepts (left ++ ending :: g :: gs) ks) : Accepts (g :: gs) (k :: ks) := by
  have hks' : Accepts ((left ++ [ending, g]) ++ gs) ks := by simpa using hks
  refine accepts_of_step ?_ hks'
  cases hg with
  | program =>
    simp only [step, h]
    rfl
  | inBlock =>
    simp only [step]
    split
    · contradiction
    · rw [h]
      rfl

/-- Where statements are to come, **a part may have been left out** before them. -/
theorem ForStatements.step_eq_none (hg : g.ForStatements) (h : advance (g :: gs) k = some gs') :
    ending.step k = none ∧ initial.step k = none ∧ alternative.step k = none := by
  rcases hg.advance_eq_some h with ⟨rfl, -, -⟩ | ⟨left, hleft, -⟩
  · exact ⟨rfl, rfl, rfl⟩
  · exact step_eq_none_of_ofStatement hleft

theorem ForStatements.accepts_ending (hg : g.ForStatements) (h : Accepts (g :: gs) ks) :
    Accepts (ending :: g :: gs) ks :=
  accepts_of_optional rfl (fun _ _ h => (hg.step_eq_none h).1) h

theorem ForStatements.step_eq_none_of_ending (hg : g.ForStatements)
    (h : advance (ending :: g :: gs) k = some gs') :
    initial.step k = none ∧ alternative.step k = none := by
  rcases advance_cons_eq_some h with ⟨left, hleft, -⟩ | ⟨-, -, h⟩
  · obtain rfl : k = .mark .semicolon := by
      simp only [step] at hleft
      split at hleft <;> trivial
    exact ⟨rfl, rfl⟩
  · exact (hg.step_eq_none h).2

theorem ForStatements.accepts_initial (hg : g.ForStatements) (h : Accepts (ending :: g :: gs) ks) :
    Accepts (initial :: ending :: g :: gs) ks :=
  accepts_of_optional rfl (fun _ _ h => (hg.step_eq_none_of_ending h).1) h

theorem ForStatements.accepts_alternative (hg : g.ForStatements)
    (h : Accepts (ending :: g :: gs) ks) : Accepts (alternative :: ending :: g :: gs) ks :=
  accepts_of_optional rfl (fun _ _ h => (hg.step_eq_none_of_ending h).2) h

/-- **An expression in parentheses may also be an argument.** -/
theorem accepts_arguments (h : Accepts (operand :: mark .rightParen :: gs) ks) :
    Accepts (items .arguments :: gs) ks := by
  cases ks with
  | nil => contradiction
  | cons k ks =>
    obtain ⟨gs', hadvance, hks⟩ := h
    rcases advance_cons_eq_some hadvance with ⟨left, hleft, rfl⟩ | ⟨-, hg, -⟩
    · refine accepts_of_step (items_step hleft) ?_
      rw [List.append_assoc]
      refine accepts_below (fun ks h => ?_) hks
      -- the parenthesis that closes the expression closes the arguments
      cases ks with
      | nil => contradiction
      | cons k ks =>
        obtain ⟨gs', hadvance, hks⟩ := h
        rcases advance_cons_eq_some hadvance with ⟨left, hleft, rfl⟩ | ⟨-, hg, -⟩
        · obtain ⟨rfl, hleft⟩ := Option.ite_none_right_eq_some.mp hleft
          cases hleft
          exact accepts_of_step rfl hks
        · contradiction
    · contradiction

/-- **What may follow a statement may follow it where an expression could go on.** A parenthesis or
a minus that could begin another statement goes on with the expression, and what may come after it
there may come after it here. -/
theorem ForStatements.accepts_more (hg : g.ForStatements) (h : Accepts (ending :: g :: gs) ks) :
    Accepts (more :: ending :: g :: gs) ks := by
  cases ks with
  | nil => exact h
  | cons k ks =>
    obtain ⟨gs', hadvance, hks⟩ := h
    cases hmore : ofMore k with
    | none =>
      have hstep : more.step k = none := hmore
      exact ⟨gs', (advance_of_optional rfl hstep _).trans hadvance, hks⟩
    | some left =>
      rcases advance_cons_eq_some hadvance with ⟨left', hleft', -⟩ | ⟨-, -, hadvance⟩
      · obtain rfl : k = .mark .semicolon := by
          simp only [step] at hleft'
          split at hleft' <;> trivial
        contradiction
      · rcases hg.advance_eq_some hadvance with ⟨rfl, -, -⟩ | ⟨first, hfirst, rfl⟩
        · contradiction
        · rcases eq_of_ofMore hmore hfirst with rfl | rfl
          · cases hmore
            cases hfirst
            exact accepts_of_step rfl (accepts_arguments hks)
          · cases hmore
            cases hfirst
            exact accepts_of_step rfl hks

theorem ofStatement_of_ofOperand (h : ofOperand k = some left) (hprint : k ≠ .keyword .print) :
    ofStatement k = some left := by
  cases k with
  | keyword w => cases w <;> contradiction
  | mark m => cases m <;> first | exact h | contradiction
  | _ => exact h

/-! ### Nothing is missed -/

/-- A token that **ends an expression** leaves nothing of it to come. -/
theorem accepts_more_cons (hk : ofMore k = none) (h : Accepts gs (k :: ks)) :
    Accepts (more :: gs) (k :: ks) := by
  obtain ⟨gs', hadvance, hks⟩ := h
  have hstep : more.step k = none := hk
  exact ⟨gs', (advance_of_optional rfl hstep _).trans hadvance, hks⟩

/-- **Tokens of these kinds are read as such a phrase**: they are accepted before whatever may
follow. -/
def Predicts : Nonterminal → List Token.Kind → Prop
  | .primary, u | .call, u | .unary, u | .level _, u | .expression, u =>
    ∀ gs ks, Accepts (more :: gs) ks → Accepts (operand :: gs) (u ++ ks)
  | .expressions, u => ∀ gs ks, Accepts (moreItems .arguments :: gs) ks →
    Accepts (operand :: moreItems .arguments :: gs) (u ++ ks)
  | .arguments, u => ∀ gs ks, Accepts gs ks →
    Accepts (items .arguments :: gs) (u ++ .mark .rightParen :: ks)
  | .names, u => ∀ gs ks, Accepts (moreItems .parameters :: gs) ks →
    Accepts (name :: moreItems .parameters :: gs) (u ++ ks)
  | .parameters, u => ∀ gs ks, Accepts gs ks →
    Accepts (items .parameters :: gs) (u ++ .mark .rightParen :: ks)
  | .block, u => ∀ gs ks, Accepts gs ks → Accepts (block :: gs) (u ++ ks)
  | .bare, u => ∀ g gs ks, g.ForStatements → Accepts (ending :: g :: gs) ks →
    Accepts (g :: gs) (u ++ ks)
  | .statement, u | .statements, u => ∀ g gs ks, g.ForStatements → Accepts (g :: gs) ks →
    Accepts (g :: gs) (u ++ ks)

/-- Items that are accepted one after the other are accepted **as a list**. -/
theorem accepts_items {list : Items} (hu : Accepts (item list :: moreItems list :: gs) ks) :
    Accepts (items list :: gs) ks := by
  cases ks with
  | nil => cases list <;> contradiction
  | cons k ks =>
    obtain ⟨gs', hadvance, hks⟩ := hu
    rcases advance_cons_eq_some hadvance with ⟨left, hleft, rfl⟩ | ⟨-, hg, -⟩
    · have hitem : ofItem list k = some left := by
        cases list with
        | arguments => exact hleft
        | parameters =>
          simp only [item, step] at hleft
          split at hleft
          · exact hleft
          · contradiction
      refine accepts_of_step (items_step hitem) ?_
      rw [List.append_assoc]
      exact hks
    · cases list <;> contradiction

/-- **Nothing that the grammar generates is missed.** -/
theorem predicts_of_generates {p : Nonterminal} (h : Generates p u) : Predicts p u := by
  induction h with
  | @single k hk =>
    intro gs ks h
    have hstep : operand.step k = some [more] := by
      cases k with
      | keyword w => cases w <;> first | rfl | contradiction
      | operator | mark | endOfInput => contradiction
      | _ => rfl
    exact accepts_of_step hstep h
  | parentheses _ ih =>
    intro gs ks h
    have hclose : Accepts (mark .rightParen :: more :: gs) (.mark .rightParen :: ks) :=
      accepts_mark h
    have hinner := ih _ _ (accepts_more_cons rfl hclose)
    have hparens : Accepts (operand :: gs) (.mark .leftParen :: (_ ++ .mark .rightParen :: ks)) :=
      accepts_of_step rfl hinner
    simpa using hparens
  | callee _ ih | unsigned _ ih | tightest _ ih | operand _ _ ih | expression _ ih => exact ih
  | application _ _ ihf ihargs =>
    intro gs ks h
    have hmore : Accepts (more :: gs) (.mark .leftParen :: (_ ++ .mark .rightParen :: ks)) :=
      accepts_of_step rfl (ihargs (more :: gs) ks h)
    have hcall := ihf gs _ hmore
    simpa using hcall
  | signed hop _ ih =>
    intro gs ks h
    exact accepts_of_step (step_of_unaryOp? hop) (ih gs ks h)
  | operation hop _ _ iha ihb =>
    intro gs ks h
    have hjoin := iha gs _ (accepts_of_step (step_of_infixOp? hop) (ihb gs ks h))
    simpa using hjoin
  | oneExpression _ ih =>
    intro gs ks h
    refine ih _ ks (accepts_of_optional rfl (fun k gs' hadvance => ?_) h)
    -- what comes next is a comma or the closing parenthesis
    rcases advance_cons_eq_some hadvance with ⟨left, hleft, -⟩ | ⟨-, hg, -⟩
    · simp only [step] at hleft
      split at hleft
      · rfl
      · rfl
      · contradiction
    · contradiction
  | moreExpressions _ _ ih ihs =>
    intro gs ks h
    have hcomma : Accepts (moreItems .arguments :: gs) (.mark .comma :: (_ ++ ks)) :=
      accepts_of_step rfl (ihs gs ks h)
    have hmore := ih _ _ (accepts_more_cons rfl hcomma)
    simpa using hmore
  | noArguments => exact fun gs ks h => accepts_of_step rfl h
  | someArguments _ ih => exact fun gs ks h => accepts_items (ih gs _ (accepts_of_step rfl h))
  | oneName => exact fun gs ks h => accepts_of_step rfl h
  | moreNames _ ih =>
    intro gs ks h
    exact accepts_of_step rfl (accepts_of_step rfl (ih gs ks h))
  | noParameters => exact fun gs ks h => accepts_of_step rfl h
  | someParameters _ ih => exact fun gs ks h => accepts_items (ih gs _ (accepts_of_step rfl h))
  | declare =>
    intro g gs ks hg h
    exact hg.accepts_of_ofStatement rfl (accepts_of_step rfl (hg.accepts_initial h))
  | declareAs _ ih =>
    intro g gs ks hg h
    have he := ih _ ks (hg.accepts_more h)
    exact hg.accepts_of_ofStatement rfl (accepts_of_step rfl (accepts_of_step rfl he))
  | print _ ih | exit _ ih =>
    intro g gs ks hg h
    exact hg.accepts_of_ofStatement rfl (ih _ ks (hg.accepts_more h))
  | conditional _ hb iht ihb =>
    intro g gs ks hg h
    have hblock := ihb _ ks (hg.accepts_alternative h)
    obtain ⟨v, rfl⟩ := hb.exists_eq_leftBrace
    have htest := iht _ _ (accepts_more_cons rfl hblock)
    have hs := hg.accepts_of_ofStatement (k := .keyword .ifK) rfl htest
    simpa using hs
  | alternative _ hb _ iht ihb ihc =>
    intro g gs ks hg h
    have helse : Accepts (alternative :: ending :: g :: gs) (.keyword .elseK :: (_ ++ ks)) :=
      accepts_of_step rfl (ihc _ ks h)
    have hblock := ihb _ _ helse
    obtain ⟨v, rfl⟩ := hb.exists_eq_leftBrace
    have htest := iht _ _ (accepts_more_cons rfl hblock)
    have hs := hg.accepts_of_ofStatement (k := .keyword .ifK) rfl htest
    simpa using hs
  | loop _ hb iht ihb =>
    intro g gs ks hg h
    have hblock := ihb _ ks h
    obtain ⟨v, rfl⟩ := hb.exists_eq_leftBrace
    have htest := iht _ _ (accepts_more_cons rfl hblock)
    have hs := hg.accepts_of_ofStatement (k := .keyword .whileK) rfl htest
    simpa using hs
  | @function id _ _ _ _ ihp ihb =>
    intro g gs ks hg h
    have hparams := ihp _ _ (ihb _ ks h)
    have hname : Accepts (name :: mark .leftParen :: items .parameters :: block :: ending ::
        g :: gs) (.identifier id :: .mark .leftParen :: _) :=
      accepts_of_step rfl (accepts_mark hparams)
    have hs := hg.accepts_of_ofStatement (k := .keyword .function) rfl hname
    simpa using hs
  | blockAlone hb ih =>
    intro g gs ks hg h
    have hblock := ih _ ks h
    obtain ⟨v, rfl⟩ := hb.exists_eq_leftBrace
    obtain ⟨gs', hadvance, hks⟩ := hblock
    cases hadvance
    exact hg.accepts_of_ofStatement rfl hks
  | expressionAlone he hprint ih =>
    intro g gs ks hg h
    have hexpr := ih _ ks (hg.accepts_more h)
    obtain ⟨k, v, rfl⟩ := List.exists_cons_of_ne_nil he.ne_nil
    obtain ⟨gs', hadvance, hks⟩ := hexpr
    rcases advance_cons_eq_some hadvance with ⟨left, hleft, rfl⟩ | ⟨-, hopt, -⟩
    · refine hg.accepts_of_ofStatement ?_ hks
      exact ofStatement_of_ofOperand hleft (by simpa using hprint)
    · contradiction
  | plain _ ih =>
    intro g gs ks hg h
    exact ih g gs ks hg (hg.accepts_ending h)
  | terminated _ ih =>
    intro g gs ks hg h
    have hs := ih g gs (.mark .semicolon :: ks) hg (accepts_of_step rfl h)
    simpa using hs
  | block _ ih =>
    intro gs ks h
    have hblock : Accepts (block :: gs) (.mark .leftBrace :: (_ ++ .mark .rightBrace :: ks)) :=
      accepts_of_step rfl (ih .inBlock gs _ .inBlock (accepts_of_step rfl h))
    simpa using hblock
  | noStatements => exact fun g gs ks _ h => h
  | moreStatements _ _ ih ihs =>
    intro g gs ks hg h
    rw [List.append_assoc]
    exact ih g gs _ hg (ihs g gs ks hg h)

/-! ### Programs -/

/-- What the grammar accepts is **accepted token by token**. -/
theorem accepts_program (h : Generates .statements u) : Accepts [program] u := by
  have hpredicts := predicts_of_generates h .program [] [] .program rfl
  rwa [List.append_nil] at hpredicts

/-- **Where a token may not come next, nothing goes on.** -/
theorem not_generates_of_advance (h : advanceAll [program] ks = some gs)
    (hk : advance gs k = none) (u : List Token.Kind) : ¬ Generates .statements (ks ++ k :: u) := by
  intro hgen
  obtain ⟨gs', hadvance, -⟩ := (accepts_append_iff h).mp (accepts_program hgen)
  exact absurd (hk.symm.trans hadvance) nofun

/-- **Where something is still to come, nothing ends.** -/
theorem not_generates_of_mayEnd (h : advanceAll [program] ks = some gs)
    (hend : gs.all mayEnd = false) : ¬ Generates .statements ks := by
  intro hgen
  rw [← List.append_nil ks] at hgen
  have haccepts : gs.all mayEnd = true := (accepts_append_iff h).mp (accepts_program hgen)
  exact absurd (hend.symm.trans haccepts) nofun

/-- **What has been read can be completed.** -/
theorem exists_generates (h : advanceAll [program] ks = some gs) :
    ∃ u, Generates .statements (ks ++ u) := by
  obtain ⟨u, hu⟩ := exists_allMetBy gs
  exact ⟨u, allMetBy_singleton.mp (allMetBy_of_advanceAll h hu)⟩

end Goal

end ScopeScript
