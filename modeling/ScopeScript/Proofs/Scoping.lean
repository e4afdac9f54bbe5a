import Mathlib.Logic.Function.Basic
import ScopeScript.Proofs.Release
import ScopeScript.Proofs.WellScoped

/-!
# Well-scoped programs know their names

**A well-scoped program never fails for an unknown name**, wherever its closures are carried and
whenever they are called.

To each frame belong the names **known** in it: those that were in force where its scope was opened,
and those declared in it since. Names are added and never taken away, so a scope that knows its
names goes on knowing them, and the body of a closure stays well-scoped under the names known in the
frame that the closure was declared in. Of the state we ask that this holds of every closure that a
frame binds (`ScopeScript.Store.Safe`); of a run, that it goes from states of this kind to states of
this kind and does not fail for an unknown name on the way.

All of this is shown of runs that let go of no scope. The others go the same way
(`ScopeScript.release`).
-/

namespace ScopeScript

/-! ### What scopes know -/

/-- A scope **knows its names**: from each of its frames outwards, the names known in that frame are
found. -/
def Scope.Knows (known : FrameId → List String) (st : Store) (s : Scope) : Prop :=
  ∀ id rest, id :: rest <:+ s.chain →
    id < st.frames.size ∧ ∀ name ∈ known id, (st.find? name (id :: rest)).isSome

/-- A value is **safe**: if it is a closure, its scope knows its names, and its body is well-scoped
under them and the parameters. -/
def Value.Safe (known : FrameId → List String) (st : Store) (v : Value) : Prop :=
  ∀ c, v = .closure c →
    c.scope.Knows known st ∧ c.decl.body.WellScoped (c.decl.params ++ known c.scope.frame)

/-- A binding is safe in a frame. -/
def Binding.Safe (known : FrameId → List String) (st : Store) (id : FrameId) : Binding → Prop
  | .value v => v.Safe known st
  | .own _ decl => decl.body.WellScoped (decl.params ++ known id)

/-- **Every binding is safe.** -/
def Store.Safe (known : FrameId → List String) (st : Store) : Prop :=
  ∀ id, ∀ entry ∈ st.frame id, entry.2.Safe known st id

/-- **More is known**, and no scope forgets. -/
structure Store.Grows (known : FrameId → List String) (st : Store) (known' : FrameId → List String)
    (st' : Store) : Prop where
  /-- No frame has gone. -/
  size_le : st.frames.size ≤ st'.frames.size
  /-- Frames know the names that they knew. -/
  names : ∀ id < st.frames.size, known id ⊆ known' id
  /-- Scopes that know their names go on knowing them. -/
  scopes : ∀ s : Scope, s.Knows known st → s.Knows known' st'

section Knowing

variable {known known' known'' : FrameId → List String} {st st' st'' : Store} {s : Scope}

theorem Scope.Knows.frame_lt (h : s.Knows known st) : s.frame < st.frames.size :=
  (h s.frame s.outer (List.suffix_refl _)).1

theorem Scope.Knows.isSome_get? (h : s.Knows known st) {name : String}
    (hname : name ∈ known s.frame) : (st.get? s name).isSome :=
  (h s.frame s.outer (List.suffix_refl _)).2 name hname

/-- The scopes around one that knows its names **know theirs**. -/
theorem Scope.Knows.of_suffix (h : s.Knows known st) {id : FrameId} {rest : List FrameId}
    (hid : id :: rest <:+ s.chain) : Scope.Knows known st ⟨id, rest⟩ :=
  fun i r hi => h i r (hi.trans hid)

namespace Store.Grows

theorem refl (known : FrameId → List String) (st : Store) : Grows known st known st :=
  ⟨Nat.le_refl _, fun _ _ => List.Subset.refl _, fun _ h => h⟩

theorem trans (h : Grows known st known' st') (h' : Grows known' st' known'' st'') :
    Grows known st known'' st'' where
  size_le := Nat.le_trans h.size_le h'.size_le
  names id hid :=
    List.Subset.trans (h.names id hid) (h'.names id (Nat.lt_of_lt_of_le hid h.size_le))
  scopes s hs := h'.scopes s (h.scopes s hs)

end Store.Grows

/-- What is safe **stays safe** when more is known. -/
theorem Value.Safe.mono {v : Value} (h : Store.Grows known st known' st') (hv : v.Safe known st) :
    v.Safe known' st' := by
  intro c hc
  obtain ⟨hs, hbody⟩ := hv c hc
  have hnames : known c.scope.frame ⊆ known' c.scope.frame := h.names _ hs.frame_lt
  exact ⟨h.scopes _ hs, hbody.mono (subset_append_append _ hnames)⟩

theorem Binding.Safe.mono {b : Binding} {id : FrameId} (h : Store.Grows known st known' st')
    (hid : id < st.frames.size) (hb : b.Safe known st id) : b.Safe known' st' id := by
  cases b with
  | value v => exact Value.Safe.mono h hb
  | own text decl => exact Block.WellScoped.mono (subset_append_append _ (h.names id hid)) hb

/-- What a scope that knows its names finds in a safe store **is safe**. -/
theorem Store.Safe.get? (hst : st.Safe known) (hs : s.Knows known st) {name : String} {v : Value}
    (h : st.get? s name = some v) : v.Safe known st := by
  obtain ⟨id, rest, b, hsuffix, -, hmem, rfl⟩ := Store.exists_binding_of_find? h
  have hsafe := hst id _ hmem
  cases b with
  | value v => exact hsafe
  | own text decl =>
    rintro c hc
    cases hc
    exact ⟨hs.of_suffix hsuffix, hsafe⟩

end Knowing

/-! ### Declarations and new scopes -/

section Steps

variable {known : FrameId → List String} {st : Store} {s : Scope}

/-- A declaration takes **no name away**. -/
theorem Store.isSome_find?_define {other : String} {ids : List FrameId} (name : String) (v : Value)
    (h : (st.find? other ids).isSome) : ((st.define s name v).find? other ids).isSome := by
  induction ids with
  | nil => exact h
  | cons id rest ih =>
    have hframe : ((st.frame id).find? other).isSome →
        (((st.define s name v).frame id).find? other).isSome := fun hsome => by
      by_cases hid : id = s.frame
      · subst hid
        by_cases hlt : s.frame < st.frames.size
        · rw [frame_define_self hlt, Frame.find?_insert]
          split
          · rfl
          · exact hsome
        · rw [frame_of_size_le (Nat.le_of_not_lt hlt)] at hsome
          exact absurd hsome nofun
      · rwa [frame_define_of_ne hid]
    rw [find?] at h ⊢
    split
    · rfl
    · next hnone =>
      -- where the frame binds nothing now, it did not before
      split at h
      · next b hb => exact absurd (hframe (hb ▸ rfl)) (by simp [hnone])
      · exact ih h

/-- **A declaration adds its name** to those known in its frame. -/
theorem Store.grows_define (known : FrameId → List String) (st : Store) (s : Scope) (name : String)
    (v : Value) :
    st.Grows known (Function.update known s.frame (name :: known s.frame))
      (st.define s name v) where
  size_le := by simp
  names id _ := by
    by_cases hid : id = s.frame
    · subst hid
      rw [Function.update_self]
      exact List.subset_cons_self ..
    · rw [Function.update_of_ne hid]
      exact List.Subset.refl _
  scopes t ht id rest hid := by
    obtain ⟨hlt, hnames⟩ := ht id rest hid
    refine ⟨by simpa using hlt, fun other hother => ?_⟩
    by_cases hne : id = s.frame
    · subst hne
      rw [Function.update_self] at hother
      rcases List.mem_cons.mp hother with rfl | hother
      · rw [find?, frame_define_self hlt, Frame.find?_insert, if_pos rfl]
        rfl
      · exact isSome_find?_define name v (hnames other hother)
    · rw [Function.update_of_ne hne] at hother
      exact isSome_find?_define name v (hnames other hother)

/-- The store stays safe if the value declared is safe **once its name is known**. -/
theorem Store.Safe.define (hst : st.Safe known) (hs : s.Knows known st) {name : String} {v : Value}
    (hv : v.Safe (Function.update known s.frame (name :: known s.frame)) (st.define s name v)) :
    (st.define s name v).Safe (Function.update known s.frame (name :: known s.frame)) := by
  have hgrows := Store.grows_define known st s name v
  intro id entry hentry
  by_cases hid : id = s.frame
  · subst hid
    rw [frame_define_self hs.frame_lt] at hentry
    rcases Frame.mem_insert hentry with rfl | hentry
    · cases v with
      | closure c =>
        -- kept without its scope, it is safe by the names of this very frame
        simp only [Binding.of]
        split
        · next hframe => exact hframe ▸ (hv c rfl).2
        · exact hv
      | _ => exact hv
    · exact (hst _ entry hentry).mono hgrows hs.frame_lt
  · rw [frame_define_of_ne hid] at hentry
    exact (hst id entry hentry).mono hgrows (Store.lt_size_of_mem hentry)

/-- **A scope is opened**: its frame knows the names known around it. -/
theorem Store.grows_enclose (known : FrameId → List String) (st : Store) (s : Scope) :
    st.Grows known (Function.update known st.frames.size (known s.frame)) (st.enclose s).2 where
  size_le := by simp
  names id hid := by
    rw [Function.update_of_ne (Nat.ne_of_lt hid)]
    exact List.Subset.refl _
  scopes t ht id rest hid := by
    obtain ⟨hlt, hnames⟩ := ht id rest hid
    refine ⟨by simpa using Nat.lt_succ_of_lt hlt, fun name hname => ?_⟩
    rw [Function.update_of_ne (Nat.ne_of_lt hlt)] at hname
    rw [find?_congr fun i _ => frame_enclose st s i]
    exact hnames name hname

theorem Store.Safe.enclose (hst : st.Safe known) (s : Scope) :
    (st.enclose s).2.Safe (Function.update known st.frames.size (known s.frame)) := by
  intro id entry hentry
  rw [frame_enclose] at hentry
  exact (hst id entry hentry).mono (Store.grows_enclose known st s) (Store.lt_size_of_mem hentry)

theorem Scope.Knows.enclose (hs : s.Knows known st) :
    (st.enclose s).1.Knows (Function.update known st.frames.size (known s.frame))
      (st.enclose s).2 := by
  intro id rest hid
  rcases List.suffix_cons_iff.mp hid with heq | hid
  · -- the new frame binds nothing, so its names are found around it
    obtain ⟨rfl, rfl⟩ := List.cons.inj heq
    refine ⟨by simp, fun name hname => ?_⟩
    rw [Store.frame_enclose_scope, Function.update_self] at hname
    have hfound := hs.isSome_get? hname
    rwa [← Store.get?_enclose] at hfound
  · exact (Store.grows_enclose known st s).scopes s hs id rest hid

end Steps

/-! ### Runs that do not fail for an unknown name -/

/-- **A step goes well**: if it has a result, more is known then, the store is safe, and `R` holds
of what is known, the state and the result; if it fails, it is not for an unknown name. -/
def Outcome.Safe {α : Type} (known : FrameId → List String) (st : State)
    (R : (FrameId → List String) → State → α → Prop) (o : Outcome α) : Prop :=
  o.Ends
    (fun a st' => ∃ known', st.store.Grows known known' st'.store ∧ st'.store.Safe known' ∧
      R known' st' a)
    fun e _ => ∀ name span, e ≠ .unknownName name span

/-- The result is safe. -/
abbrev Value.SafeIn (known : FrameId → List String) (st : State) (v : Value) : Prop :=
  v.Safe known st.store

namespace Outcome.Safe

variable {α β : Type} {known known' : FrameId → List String} {st st' : State}
  {R : (FrameId → List String) → State → α → Prop} {Q : (FrameId → List String) → State → β → Prop}

/-- A result at once. -/
theorem result {a : α} (hst : st.store.Safe known) (ha : R known st a) :
    (Outcome.done a st).Safe known st R :=
  ⟨known, .refl known st.store, hst, ha⟩

theorem of_grows {o : Outcome α} (h : st.store.Grows known known' st'.store)
    (ho : o.Safe known' st' R) : o.Safe known st R :=
  Ends.imp ho (fun _ _ ⟨known'', h', hst, ha⟩ => ⟨known'', h.trans h', hst, ha⟩) fun _ _ he => he

/-- **One step after another.** -/
theorem andThen {o : Outcome α} {f : α → State → Outcome β} (h : o.Safe known st R)
    (hf : ∀ known₁ st₁ a, st.store.Grows known known₁ st₁.store → st₁.store.Safe known₁ →
      R known₁ st₁ a → (f a st₁).Safe known₁ st₁ Q) : (o.andThen f).Safe known st Q := by
  refine Ends.andThen (Ends.imp h ?_ fun _ _ he => he)
  rintro a st₁ ⟨known₁, h₁, hst₁, ha⟩
  exact of_grows h₁ (hf known₁ st₁ a h₁ hst₁ ha)

end Outcome.Safe

/-- **Calls of safe values** with safe arguments go well. -/
def Caller.Safe (call : Caller) : Prop :=
  ∀ known v args span st, st.store.Safe known → v.Safe known st.store →
    (∀ a ∈ args, a.Safe known st.store) → (call v args span st).Safe known st Value.SafeIn

theorem Value.safe_of_ne {known : FrameId → List String} {st : Store} {v : Value}
    (h : ∀ c, v ≠ .closure c) : v.Safe known st :=
  fun c hc => absurd hc (h c)

theorem Value.safe_null {known : FrameId → List String} {st : Store} : Value.null.Safe known st :=
  Value.safe_of_ne nofun

section Expressions

variable {call : Caller} {site : Site}

theorem ofOperator_safe {known : FrameId → List String} {st : State} (hst : st.store.Safe known)
    {r : Except TypeFault Value} (hr : ∀ v, r = .ok v → ∀ c, v ≠ .closure c) (span : Span) :
    (Eval.ofOperator span r st).Safe known st Value.SafeIn := by
  cases r with
  | ok v => exact .result hst (Value.safe_of_ne (hr v rfl))
  | error fault => exact fun _ _ => nofun

mutual

/-- **A well-scoped expression goes well** where its names are known. -/
theorem evaluate_safe (hcall : call.Safe) :
    ∀ (e : Expr) {known : FrameId → List String} {st : State}, site.scope.Knows known st.store →
      st.store.Safe known → e.WellScoped (known site.scope.frame) →
      (evaluate call site e st).Safe known st Value.SafeIn
  | .literal v span, known, st, _, hst, _ => by
    rw [evaluate_literal]
    exact .result hst (Value.safe_of_ne fun c => by cases v <;> nofun)
  | .name id span, known, st, hs, hst, he => by
    rw [evaluate_name, Eval.lookup]
    obtain ⟨v, hv⟩ := Option.isSome_iff_exists.mp (hs.isSome_get? he)
    rw [hv]
    exact .result hst (hst.get? hs hv)
  | .binary op l r span, known, st, hs, hst, ⟨hl, hr⟩ => by
    rw [evaluate_binary]
    refine (evaluate_safe hcall l hs hst hl).andThen ?_
    intro known₁ st₁ a h₁ hst₁ ha
    have hr₁ : r.WellScoped (known₁ site.scope.frame) := hr.mono (h₁.names _ hs.frame_lt)
    refine (evaluate_safe hcall r (h₁.scopes _ hs) hst₁ hr₁).andThen ?_
    intro known₂ st₂ b h₂ hst₂ hb
    exact ofOperator_safe hst₂ (fun v => BinaryOp.apply_ne_closure) span
  | .logical op l r span, known, st, hs, hst, ⟨hl, hr⟩ => by
    rw [evaluate_logical]
    refine (evaluate_safe hcall l hs hst hl).andThen ?_
    intro known₁ st₁ a h₁ hst₁ ha
    have hr₁ : r.WellScoped (known₁ site.scope.frame) := hr.mono (h₁.names _ hs.frame_lt)
    split
    · exact .result hst₁ ha
    · exact evaluate_safe hcall r (h₁.scopes _ hs) hst₁ hr₁
  | .unary op e span, known, st, hs, hst, he => by
    rw [evaluate_unary]
    refine (evaluate_safe hcall e hs hst he).andThen ?_
    intro known₁ st₁ a h₁ hst₁ ha
    exact ofOperator_safe hst₁ (fun v => UnaryOp.apply_ne_closure) span
  | .call f args span, known, st, hs, hst, ⟨hf, hargs⟩ => by
    rw [evaluate_call]
    refine (evaluate_safe hcall f hs hst hf).andThen ?_
    intro known₁ st₁ v h₁ hst₁ hv
    have hargs₁ : Expr.AllWellScoped (known₁ site.scope.frame) args :=
      hargs.mono (h₁.names _ hs.frame_lt)
    refine (evaluateAll_safe hcall args (h₁.scopes _ hs) hst₁ hargs₁).andThen ?_
    intro known₂ st₂ vs h₂ hst₂ hvs
    exact hcall known₂ v vs span st₂ hst₂ (hv.mono h₂) hvs

theorem evaluateAll_safe (hcall : call.Safe) :
    ∀ (es : List Expr) {known : FrameId → List String} {st : State},
      site.scope.Knows known st.store → st.store.Safe known →
      Expr.AllWellScoped (known site.scope.frame) es →
      (evaluateAll call site es st).Safe known st
        fun known' st' vs => ∀ v ∈ vs, v.Safe known' st'.store
  | [], known, st, _, hst, _ => by
    rw [evaluateAll_nil]
    exact .result hst nofun
  | e :: es, known, st, hs, hst, ⟨he, hes⟩ => by
    rw [evaluateAll_cons]
    refine (evaluate_safe hcall e hs hst he).andThen ?_
    intro known₁ st₁ v h₁ hst₁ hv
    have hes₁ : Expr.AllWellScoped (known₁ site.scope.frame) es :=
      hes.mono (h₁.names _ hs.frame_lt)
    refine (evaluateAll_safe hcall es (h₁.scopes _ hs) hst₁ hes₁).andThen ?_
    intro known₂ st₂ vs h₂ hst₂ hvs
    exact .result hst₂ (List.forall_mem_cons.mpr ⟨hv.mono h₂, hvs⟩)

end

end Expressions

/-! ### Scopes and loops -/

/-- The value with which a statement ends is safe. -/
abbrev Flow.SafeIn (known : FrameId → List String) (st : State) (flow : Flow) : Prop :=
  flow.value.Safe known st.store

/-- What goes well **wherever the given names are known**. -/
def Eval.SafeWith {α : Type} (names : List String) (scope : Scope)
    (R : (FrameId → List String) → State → α → Prop) (run : Eval α) : Prop :=
  ∀ known st, scope.Knows known st.store → st.store.Safe known → names ⊆ known scope.frame →
    (run st).Safe known st R

section Scopes

variable {opts : Options} {names : List String}

/-- **A new scope** knows the names known around it. -/
theorem enclosed_safe {site : Site} {body : Site → Eval Flow}
    (hbody : ∀ inner : Site, (body inner).SafeWith names inner.scope Flow.SafeIn) :
    (Eval.enclosed opts.keeping site body).SafeWith names site.scope Flow.SafeIn := by
  intro known st hs hst hnames
  have hstart := hbody ⟨site.text, (st.store.enclose site.scope).1⟩ _ (st.enter site.scope)
    hs.enclose (hst.enclose site.scope) (by
      rwa [Store.frame_enclose_scope, Function.update_self])
  rw [enclosed_apply, Eval.ending]
  generalize body _ (st.enter site.scope) = o at hstart
  have hgrows := Store.grows_enclose known st.store site.scope
  cases o with
  | done flow st' =>
    obtain ⟨known', h, hst', hflow⟩ := hstart
    exact ⟨known', hgrows.trans h, hst', hflow⟩
  | failed e st' => exact hstart
  | unfinished => trivial

/-- A loop, **turn by turn**: what its turns declare only adds to the names known. -/
theorem repeatWhile_safe {scope : Scope} {test : Eval Value} {body : Eval Flow}
    (htest : test.SafeWith names scope Value.SafeIn)
    (hbody : body.SafeWith names scope Flow.SafeIn) :
    ∀ turns, (Eval.repeatWhile test body turns).SafeWith names scope Flow.SafeIn
  | 0, _, _, _, _, _ => trivial
  | n + 1, known, st, hs, hst, hnames => by
    rw [repeatWhile_succ]
    refine (htest known st hs hst hnames).andThen ?_
    intro known₁ st₁ v h₁ hst₁ _
    have hnames₁ := List.Subset.trans hnames (h₁.names _ hs.frame_lt)
    have hs₁ := h₁.scopes _ hs
    split
    · refine (hbody known₁ st₁ hs₁ hst₁ hnames₁).andThen ?_
      intro known₂ st₂ flow h₂ hst₂ hflow
      cases flow with
      | exit v => exact .result hst₂ hflow
      | normal v =>
        exact repeatWhile_safe htest hbody n known₂ st₂ (h₂.scopes _ hs₁) hst₂
          (List.Subset.trans hnames₁ (h₂.names _ hs₁.frame_lt))
    · exact .result hst₁ Value.safe_null

end Scopes

/-! ### Statements -/

/-- How a statement goes well: its value is safe, and the name that it declares **is known after
it**. -/
def Stmt.SafeIn (s : Stmt) (scope : Scope) (known : FrameId → List String) (st : State)
    (flow : Flow) : Prop :=
  Flow.SafeIn known st flow ∧ ∀ name, s.declared = some name → name ∈ known scope.frame

section Statements

variable {opts : Options} {call : Caller} {turns : Nat} {known : FrameId → List String} {st : State}

/-- A statement that declares no name. -/
theorem Outcome.Safe.undeclared {o : Outcome Flow} (h : o.Safe known st Flow.SafeIn) {s : Stmt}
    (hs : s.declared = none) (scope : Scope) : o.Safe known st (s.SafeIn scope) := by
  refine Ends.imp h ?_ fun _ _ he => he
  rintro flow st' ⟨known', h', hst, hflow⟩
  refine ⟨known', h', hst, hflow, fun name hname => ?_⟩
  rw [hs] at hname
  contradiction

/-- **A declaration** of a value that is safe once the name is known. -/
theorem define_safe {scope : Scope} (hs : scope.Knows known st.store) (hst : st.store.Safe known)
    {name : String} {v : Value} (hv : v.Safe (Function.update known scope.frame
      (name :: known scope.frame)) (st.store.define scope name v)) {s : Stmt}
    (hname : s.declared = some name) :
    (Outcome.done (.normal v) (st.define scope name v)).Safe known st (s.SafeIn scope) := by
  refine ⟨_, Store.grows_define _ _ scope name v, hst.define hs hv, hv, fun other hother => ?_⟩
  rw [hname] at hother
  rw [Function.update_self, Option.some.inj hother]
  exact List.mem_cons_self ..

mutual

/-- **A well-scoped statement goes well** where its names are known. -/
theorem execute_safe (hcall : call.Safe) :
    ∀ (s : Stmt) {known : FrameId → List String} {site : Site} {st : State},
      site.scope.Knows known st.store → st.store.Safe known →
      s.WellScoped (known site.scope.frame) →
      (execute opts.keeping call turns site s st).Safe known st (s.SafeIn site.scope)
  | .declare name none span, known, site, st, hs, hst, _ => by
    rw [execute_declare_none]
    exact define_safe hs hst Value.safe_null rfl
  | .declare name (some e) span, known, site, st, hs, hst, he => by
    rw [execute_declare_some]
    refine (evaluate_safe hcall e hs hst he).andThen ?_
    intro known₁ st₁ v h₁ hst₁ hv
    exact define_safe (h₁.scopes _ hs) hst₁ (hv.mono (Store.grows_define ..)) rfl
  | .print e span, known, site, st, hs, hst, he => by
    rw [execute_print]
    refine .undeclared ?_ rfl _
    refine (evaluate_safe hcall e hs hst he).andThen ?_
    intro known₁ st₁ v h₁ hst₁ hv
    exact ⟨known₁, .refl known₁ st₁.store, hst₁, Value.safe_null⟩
  | .block b, known, site, st, hs, hst, hb => by
    rw [execute_block]
    exact (executeBlock_safe hcall b hs hst hb).undeclared rfl _
  | .conditional test b none span, known, site, st, hs, hst, ⟨htest, hb⟩ => by
    rw [execute_conditional]
    refine .undeclared ?_ rfl _
    refine (evaluate_safe hcall test hs hst htest).andThen ?_
    intro known₁ st₁ v h₁ hst₁ hv
    have hb₁ : b.WellScoped (known₁ site.scope.frame) := hb.mono (h₁.names _ hs.frame_lt)
    split
    · exact executeBlock_safe hcall b (h₁.scopes _ hs) hst₁ hb₁
    · exact .result hst₁ Value.safe_null
  | .conditional test b (some c) span, known, site, st, hs, hst, ⟨htest, hb, hc⟩ => by
    rw [execute_conditional]
    refine .undeclared ?_ rfl _
    refine (evaluate_safe hcall test hs hst htest).andThen ?_
    intro known₁ st₁ v h₁ hst₁ hv
    have hb₁ : b.WellScoped (known₁ site.scope.frame) := hb.mono (h₁.names _ hs.frame_lt)
    have hc₁ : c.WellScoped (known₁ site.scope.frame) := hc.mono (h₁.names _ hs.frame_lt)
    split
    · exact executeBlock_safe hcall b (h₁.scopes _ hs) hst₁ hb₁
    · exact executeBlock_safe hcall c (h₁.scopes _ hs) hst₁ hc₁
  | .loop test (.mk body inner) span, known, site, st, hs, hst, ⟨htest, hbody⟩ => by
    rw [execute_loop]
    refine .undeclared ?_ rfl _
    refine enclosed_safe (fun inner => repeatWhile_safe ?_ ?_ turns) known st hs hst
      (List.Subset.refl _)
    · intro known₁ st₁ hs₁ hst₁ hnames
      exact evaluate_safe hcall test hs₁ hst₁ (htest.mono hnames)
    · intro known₁ st₁ hs₁ hst₁ hnames
      exact executeAll_safe hcall body hs₁ hst₁ Value.safe_null
        (Stmt.AllWellScoped.mono hnames hbody)
  | .function name params body span, known, site, st, hs, hst, hbody => by
    rw [execute_function]
    -- the body may use the name of the procedure, which is known once it is declared
    refine define_safe hs hst ?_ rfl
    rintro c hc
    cases hc
    refine ⟨(Store.grows_define _ _ site.scope name _).scopes _ hs, ?_⟩
    rwa [Function.update_self]
  | .exit e span, known, site, st, hs, hst, he => by
    rw [execute_exit]
    refine .undeclared ?_ rfl _
    refine (evaluate_safe hcall e hs hst he).andThen ?_
    intro known₁ st₁ v h₁ hst₁ hv
    exact .result hst₁ hv
  | .expression e, known, site, st, hs, hst, he => by
    rw [execute_expression]
    refine .undeclared ?_ rfl _
    refine (evaluate_safe hcall e hs hst he).andThen ?_
    intro known₁ st₁ v h₁ hst₁ hv
    exact .result hst₁ hv

theorem executeBlock_safe (hcall : call.Safe) :
    ∀ (b : Block) {known : FrameId → List String} {site : Site} {st : State},
      site.scope.Knows known st.store → st.store.Safe known →
      b.WellScoped (known site.scope.frame) →
      (executeBlock opts.keeping call turns site b st).Safe known st Flow.SafeIn
  | .mk ss span, known, site, st, hs, hst, hss => by
    rw [executeBlock_mk]
    refine enclosed_safe (fun inner => ?_) known st hs hst (List.Subset.refl _)
    intro known₁ st₁ hs₁ hst₁ hnames
    exact executeAll_safe hcall ss hs₁ hst₁ Value.safe_null (Stmt.AllWellScoped.mono hnames hss)

theorem executeAll_safe (hcall : call.Safe) :
    ∀ (ss : List Stmt) {known : FrameId → List String} {site : Site} {last : Value} {st : State},
      site.scope.Knows known st.store → st.store.Safe known → last.Safe known st.store →
      Stmt.AllWellScoped (known site.scope.frame) ss →
      (executeAll opts.keeping call turns site last ss st).Safe known st Flow.SafeIn
  | [], known, site, last, st, _, hst, hlast, _ => by
    rw [executeAll_nil]
    exact .result hst hlast
  | s :: ss, known, site, last, st, hs, hst, _, ⟨hfirst, hrest⟩ => by
    rw [executeAll_cons]
    refine (execute_safe hcall s hs hst hfirst).andThen ?_
    rintro known₁ st₁ flow h₁ hst₁ ⟨hflow, hdeclared⟩
    cases flow with
    | exit v => exact .result hst₁ hflow
    | normal v =>
      -- the others may use what the first declares
      have hnames : s.declared.toList ++ known site.scope.frame ⊆ known₁ site.scope.frame := by
        intro name hname
        rcases List.mem_append.mp hname with hname | hname
        · exact hdeclared name (Option.mem_toList.mp hname)
        · exact h₁.names _ hs.frame_lt hname
      exact executeAll_safe hcall ss (h₁.scopes _ hs) hst₁ hflow
        (Stmt.AllWellScoped.mono hnames hrest)

end

end Statements

/-! ### Calls -/

section Calls

variable {opts : Options} {known : FrameId → List String}

/-- **Parameters are known** in the scope of a call once they are bound. -/
theorem bindAll_safe {s : Scope} (params : List String) (args : List Value) {st : Store}
    (hs : s.Knows known st) (hst : st.Safe known) (hargs : ∀ a ∈ args, a.Safe known st) :
    ∃ known', st.Grows known known' (st.bindAll s params args) ∧
      (st.bindAll s params args).Safe known' ∧ params ++ known s.frame ⊆ known' s.frame := by
  induction params generalizing args known st with
  | nil => exact ⟨known, .refl known st, hst, List.Subset.refl _⟩
  | cons p ps ih =>
    -- a parameter without an argument is bound to null
    obtain ⟨v, vs, hbind, hv, hvs⟩ : ∃ v vs,
        st.bindAll s (p :: ps) args = (st.define s p v).bindAll s ps vs ∧ v.Safe known st ∧
          ∀ a ∈ vs, a.Safe known st := by
      cases args with
      | nil => exact ⟨.null, [], rfl, Value.safe_null, nofun⟩
      | cons v vs => exact ⟨v, vs, rfl, (List.forall_mem_cons.mp hargs).1,
          (List.forall_mem_cons.mp hargs).2⟩
    have hgrows := Store.grows_define known st s p v
    obtain ⟨known', h, hsafe, hnames⟩ := ih vs (hgrows.scopes s hs)
      (hst.define hs (hv.mono hgrows)) fun a ha => (hvs a ha).mono hgrows
    rw [Function.update_self] at hnames
    refine ⟨known', hbind ▸ hgrows.trans h, hbind ▸ hsafe, fun name hname => hnames ?_⟩
    rcases List.mem_cons.mp hname with rfl | hname
    · exact List.mem_append_right _ (List.mem_cons_self ..)
    · exact subset_append_append ps (List.subset_cons_self ..) hname

/-- **Bodies go well** where the names that they need are known. -/
def SafeBodies (runBody : Site → List Stmt → Eval Flow) : Prop :=
  ∀ site ss known st, site.scope.Knows known st.store → st.store.Safe known →
    Stmt.AllWellScoped (known site.scope.frame) ss →
    (runBody site ss st).Safe known st Flow.SafeIn

variable {runBody : Site → List Stmt → Eval Flow} {st : State}

theorem activation_safe (hbody : SafeBodies runBody) {c : Closure} {args : List Value}
    (hst : st.store.Safe known) (hc : (Value.closure c).Safe known st.store)
    (hargs : ∀ a ∈ args, a.Safe known st.store) :
    (Eval.activation opts.keeping runBody c args st).Safe known st Value.SafeIn := by
  -- the scope of the closure knows its names still, wherever the call is made
  obtain ⟨hs, hwell⟩ := hc c rfl
  have hopen := Store.grows_enclose known st.store c.scope
  obtain ⟨known₁, h₁, hst₁, hnames⟩ := bindAll_safe c.decl.params args hs.enclose
    (hst.enclose c.scope) fun a ha => (hargs a ha).mono hopen
  rw [Store.frame_enclose_scope, Function.update_self] at hnames
  have hrun := hbody ⟨c.text, (st.store.enclose c.scope).1⟩ c.decl.body.statements known₁
    (st.activate c args) (h₁.scopes _ hs.enclose) hst₁
    (Stmt.AllWellScoped.mono hnames hwell.statements)
  rw [activation_apply]
  generalize runBody _ _ (st.activate c args) = o at hrun
  cases o with
  | done flow st' =>
    obtain ⟨known', h, hst', hflow⟩ := hrun
    exact ⟨known', (hopen.trans h₁).trans h, hst', hflow⟩
  | failed e st' => exact hrun
  | unfinished => trivial

theorem answer_safe (hbody : SafeBodies runBody) : (answer opts.keeping runBody).Safe := by
  intro known v args span st hst hv hargs
  cases v with
  | builtin => exact ⟨known, .refl known st.store, hst, Value.safe_null⟩
  | closure c =>
    rw [answer_closure]
    split
    · next e hrefused => exact Options.refusal?_ne_unknownName hrefused
    · exact activation_safe hbody hst hv hargs
  | _ => exact fun _ _ => nofun

/-- Bodies go well **however deeply calls may nest**. -/
theorem bodies_safe (opts : Options) (turns : Nat) : ∀ n, SafeBodies (bodies opts.keeping turns n)
  | 0 => fun _ _ _ _ _ _ _ => trivial
  | n + 1 => fun site ss known st hs hst hss => by
    refine executeAll_safe ?_ ss hs hst Value.safe_null hss
    rw [call_eq_answer]
    exact answer_safe (bodies_safe opts turns n)

theorem call_safe (opts : Options) (turns n : Nat) : (call opts.keeping turns n).Safe := by
  rw [call_eq_answer]
  exact answer_safe (bodies_safe opts turns n)

end Calls

/-! ### Programs -/

/-- The names known at first: **the builtin procedure's**, in the global frame. -/
def knownAtFirst : FrameId → List String :=
  Function.update (fun _ => []) State.initial.1.frame [Keyword.print.spelling]

theorem knows_root : Scope.Knows (fun _ => []) Store.empty.root.2 Store.empty.root.1 := by
  intro id rest hid
  refine ⟨?_, nofun⟩
  rw [List.mem_singleton.mp (hid.subset (List.mem_cons_self ..))]
  exact Nat.zero_lt_one

theorem safe_root : Store.empty.root.2.Safe fun _ => [] := by
  intro id entry hentry
  rw [Store.frame_root, Store.frame_of_size_le (Nat.zero_le id)] at hentry
  exact absurd hentry List.not_mem_nil

theorem knows_atFirst : State.initial.1.Knows knownAtFirst State.initial.2.store :=
  (Store.grows_define _ _ Store.empty.root.1 _ .builtin).scopes _ knows_root

theorem safe_atFirst : State.initial.2.store.Safe knownAtFirst :=
  safe_root.define knows_root (Value.safe_of_ne nofun)

/-- An interpreter that lets go of no scope runs a well-scoped program **without failing for an
unknown name**. -/
theorem keeping_run_ne_unknownName {opts : Options} {bounds : Bounds} {p : Program}
    (hp : p.WellScoped) {r : Except RuntimeError Value} {it : Interpreter}
    (h : (Interpreter.new opts.keeping).run bounds p = some (r, it)) (name : String) (span : Span) :
    r ≠ .error (.unknownName name span) := by
  have hrun : ((Interpreter.new opts.keeping).executeAll bounds
      (Interpreter.new opts.keeping).nextText.1 p.statements
      (Interpreter.new opts.keeping).state).Safe knownAtFirst (Interpreter.new opts.keeping).state
      Flow.SafeIn :=
    executeAll_safe (call_safe opts bounds.turns bounds.calls) p.statements knows_atFirst
      safe_atFirst Value.safe_null hp
  rw [Interpreter.run_apply] at h
  rintro rfl
  split at h
  · cases h
  · next e st heq =>
    rw [heq] at hrun
    cases h
    exact hrun name span rfl
  · contradiction

/-- **Lexical scoping is sound.** A well-scoped program that is run by a new interpreter and comes
to an end never fails for an unknown name, whatever was chosen about the run. -/
theorem wellScoped_run_ne_unknownName (opts : Options) (bounds : Bounds) (p : Program)
    (hp : p.WellScoped) (r : Except RuntimeError Value) (it : Interpreter)
    (h : (Interpreter.new opts).run bounds p = some (r, it)) (name : String) (span : Span) :
    r ≠ .error (.unknownName name span) := by
  -- the run that lets go of no scope fails with the same error
  have hran := Simulation.run_meet (release_new opts) bounds p
  rw [h] at hran
  generalize hkeep : (Interpreter.new opts.keeping).run bounds p = o at hran
  rintro rfl
  cases hran with
  | @some _ ran hran =>
    obtain ⟨r', it'⟩ := ran
    obtain ⟨_, _, hresult, _⟩ := hran
    cases hresult
    exact keeping_run_ne_unknownName hp hkeep name span rfl

/-- A closure that is called after the call in which it was declared has ended. -/
theorem wellScoped_run_ne_unknownName_escapingClosure :
    Program.WellScoped
      ⟨escapingClosure.statements ++ [.expression (.call (.name "g" .none) [] .none)]⟩ ∧
    ∃ r it, (Interpreter.new {}).run ⟨1, 2⟩
        ⟨escapingClosure.statements ++ [.expression (.call (.name "g" .none) [] .none)]⟩ =
          some (r, it) ∧
      ∀ name span, r ≠ .error (.unknownName name span) :=
  have hp : Program.WellScoped
      ⟨escapingClosure.statements ++ [.expression (.call (.name "g" .none) [] .none)]⟩ := by decide
  ⟨hp, _, _, rfl, wellScoped_run_ne_unknownName {} ⟨1, 2⟩ _ hp _ _ rfl⟩

end ScopeScript
