import ScopeScript.Proofs.ScopeDepth

/-!
# When closures are the same

The equality of the language tells closures by their frame and by their declaration, and it knows a
declaration by the number of its text, by its name and by where its body stands. **In texts that are
read this is to know the declaration itself**, and the name is not even needed: two procedures of a
text whose bodies have the same span are one procedure (`ScopeScript.Program.HasAt.function_eq`).
If one of them enclosed the other, it would do so within its body, and what stands in a block begins
behind the brace of the block; and bodies that stand apart have different spans.

So wherever a run compares two closures, they are found equal just if one declaration of one text
has made both of them in one frame (`ScopeScript.equality_exact`).

All of this is about programs that come from texts, each run as a text of its own. A tree that is
built by hand may repeat a name and a span, and two procedures of it are then taken for one.
-/

namespace ScopeScript

/-! ### A procedure is known by the span of its body -/

section Bodies

variable {tokens : List Token} {k : Nat} {name name' : String} {params params' : List String}
  {b b' : Block} {span span' : Span}

/-- What stands in a block begins **behind its brace**. -/
theorem Node.Spelled.block_start_lt {child : Node} (h : (Node.block b).Spelled tokens)
    (htokens : Solid tokens) (hchild : child ∈ (Node.block b).children) :
    b.span.start < child.span.start := by
  rw [Node.Spelled, Node.phrase] at h
  generalize hlimit : nestingLimit = n at h
  cases h with
  | @block n ss opening closing ts _ h =>
    have hroom : n ≤ nestingLimit := hlimit ▸ Nat.le_succ n
    obtain ⟨taken, rfl, hstatements⟩ := h.spread hroom
    obtain ⟨part, hpart, hspelled⟩ := hstatements.exists_infix hchild
    have hpart_tokens : Consecutive part := htokens.consecutive.sublist
      (.cons _ (hpart.sublist.trans (List.sublist_append_left ..)))
    obtain ⟨t, ht, hstart⟩ := (hspelled.covers hpart_tokens).first
    have hmem : t ∈ taken := hpart.subset (List.mem_of_mem_head? ht)
    have hlater := (List.pairwise_cons.mp htokens.consecutive.stop_le_start).1 t
      (List.mem_append_left _ hmem)
    have hopening := htokens.start_lt_stop _ (List.mem_cons_self ..)
    change min opening.start closing.start < child.span.start
    simp only at hlater hopening
    omega

/-- A procedure encloses **its body**. -/
theorem Node.encloses_body : (Node.stmt (.function name params b span)).Encloses 0 (.block b) :=
  .child (List.mem_singleton_self _) .refl

/-- **No procedure inside of another** has a body with the same span. -/
theorem Node.Encloses.eq_of_body_span
    (h : (Node.stmt (.function name params b span)).Encloses k
      (.stmt (.function name' params' b' span')))
    (hspelled : (Node.stmt (.function name params b span)).Spelled tokens) (htokens : Solid tokens)
    (hspan : b.span = b'.span) :
    Stmt.function name params b span = .function name' params' b' span' := by
  cases h with
  | refl => rfl
  | child hchild h =>
    obtain ⟨part, hpart, hbody⟩ := hspelled.children.exists_infix hchild
    obtain rfl := List.mem_singleton.mp hchild
    have hpart_tokens := htokens.part hpart
    cases h with
    | child hinner h =>
      -- the body of the inner procedure lies in a statement behind the brace of the outer body
      have hbehind := hbody.block_start_lt hpart_tokens hinner
      obtain ⟨part', hpart', hstatement⟩ := hbody.children.exists_infix hinner
      obtain ⟨hstart, -⟩ := (h.trans_child (List.mem_singleton_self _)).inside hstatement
        (hpart_tokens.part hpart')
      rw [hspan] at hbehind
      exact absurd hbehind (Nat.not_lt_of_le hstart)

/-- **A procedure of a text is known by the span of its body.** -/
theorem Program.HasAt.function_eq {source : String} {p : Program} {j : Nat}
    (hp : Program.ofSource source = .ok p)
    (hk : p.HasAt k (.stmt (.function name params b span)))
    (hj : p.HasAt j (.stmt (.function name' params' b' span'))) (hspan : b.span = b'.span) :
    Stmt.function name params b span = .function name' params' b' span' := by
  obtain ⟨tokens, hspelled, htokens⟩ := hk.exists_spelled hp
  obtain ⟨tokens', hspelled', htokens'⟩ := hj.exists_spelled hp
  rcases hk.nested_or_apart hp hj with ⟨i, h⟩ | ⟨i, h⟩ | hapart
  · exact h.eq_of_body_span hspelled htokens hspan
  · exact (h.eq_of_body_span hspelled' htokens' hspan.symm).symm
  · -- the bodies would stand apart as well, and they are not empty
    obtain ⟨hstart, hstop⟩ := Node.encloses_body.inside hspelled htokens
    obtain ⟨hstart', hstop'⟩ := Node.encloses_body.inside hspelled' htokens'
    obtain ⟨part, hbody, hpart⟩ :=
      (hk.child (List.mem_singleton_self (Node.block b))).exists_spelled hp
    have hpos := hbody.start_lt_stop hpart
    have heq : (Node.block b).span = (Node.block b').span := hspan
    rw [heq] at hstart hstop hpos
    rcases hapart with hapart | hapart <;> omega

end Bodies

/-! ### Closures over the texts -/

section Closures

variable {texts : List String} {levels : List Nat} {c d : Closure}

/-- A declaration of a text is known **by the span of its body**. -/
theorem DeclaredAt.eq_of_body_span {text k j : Nat} {decl decl' : FunctionDecl}
    (h : DeclaredAt texts text k decl) (h' : DeclaredAt texts text j decl')
    (hspan : decl.body.span = decl'.body.span) : decl = decl' := by
  obtain ⟨span, source, p, hsource, hp, hat⟩ := h
  obtain ⟨span', source', p', hsource', hp', hat'⟩ := h'
  obtain rfl := Option.some.inj (hsource.symm.trans hsource')
  obtain rfl := Except.ok.inj (hp.symm.trans hp')
  obtain ⟨name, params, b⟩ := decl
  obtain ⟨name', params', b'⟩ := decl'
  cases hat.function_eq hp hat' hspan
  rfl

/-- **Closures over the texts are told exactly**: they are the same just if they have one
declaration of one text and one frame. -/
theorem Closure.Mirrors.same_iff (hc : c.Mirrors texts levels) (hd : d.Mirrors texts levels) :
    c.same d = true ↔ c.text = d.text ∧ c.decl = d.decl ∧ c.scope.frame = d.scope.frame := by
  rw [Closure.same_iff]
  constructor
  · rintro ⟨htext, -, hspan, hframe⟩
    have hdeclared := hd.declared
    rw [← htext] at hdeclared
    exact ⟨htext, hc.declared.eq_of_body_span hdeclared hspan, hframe⟩
  · rintro ⟨htext, hdecl, hframe⟩
    rw [hdecl]
    exact ⟨htext, rfl, rfl, hframe⟩

/-- Two procedures of a tree that no text has been read to may be **taken for one**: they differ in
their parameters, but not in their name and the span of their body. -/
example : Closure.same ⟨0, ⟨"f", [], .mk [] .none⟩, ⟨0, []⟩⟩
    ⟨0, ⟨"f", ["x"], .mk [] .none⟩, ⟨0, []⟩⟩ = true := by
  decide

end Closures

/-! ### Comparisons in a run -/

/-- **The equality of the language tells closures exactly.** After any texts, wherever a run of a
further text compares two closures, the comparison has a result; and it is true just if one
declaration of one text has made both closures in one frame. -/
theorem equality_exact {opts : Options} {texts : List String} {it : Interpreter}
    (hit : it.HasRead opts texts) (bounds : Bounds) {source : String} {p : Program}
    (hp : Program.ofSource source = .ok p) {m : Moment}
    (hm : Moment.Visits it.options bounds.turns (it.start bounds p) m) {site : Site} {l r : Expr}
    {span : Span} (htask : m.task = .expression site (.binary .equal l r span)) {c d : Closure}
    {st₁ st₂ : State}
    (hl : evaluate (call it.options bounds.turns m.calls) site l m.state = .done (.closure c) st₁)
    (hr : evaluate (call it.options bounds.turns m.calls) site r st₁ = .done (.closure d) st₂) :
    ∃ same, evaluate (call it.options bounds.turns m.calls) site (.binary .equal l r span) m.state =
        .done (.boolean same) st₂ ∧
      (same = true ↔ c.text = d.text ∧ c.decl = d.decl ∧ c.scope.frame = d.scope.frame) := by
  obtain ⟨_, -, hholds⟩ := hit.mirrors.start hp bounds
  obtain ⟨levels, -, hruns, hst⟩ := hholds.visits hm
  rw [htask] at hruns
  have hcall := (mirroring (texts ++ [source])).call_stays it.options bounds.turns m.calls
  have hleft := (mirroring _).operand hruns (List.mem_cons_self ..)
  have hright := (mirroring _).operand hruns (List.mem_cons_of_mem _ (List.mem_cons_self ..))
  -- both closures are declared in the texts, the first one still when the second is there
  obtain ⟨levels₁, h₁, hst₁, hc⟩ := (Discipline.evaluate_stays hcall l hleft hst).of_done hl
  obtain ⟨levels₂, h₂, -, hd⟩ := (Discipline.evaluate_stays hcall r
    ((mirroring _).runs_mono h₁ hright) hst₁).of_done hr
  have hmirrors := (mirroring _).fits_mono h₂ (hc c rfl)
  refine ⟨c.same d, ?_, Closure.Mirrors.same_iff hmirrors (hd d rfl)⟩
  rw [evaluate_binary, hl]
  change (evaluate _ site r st₁).andThen _ = _
  rw [hr]
  rfl

end ScopeScript
