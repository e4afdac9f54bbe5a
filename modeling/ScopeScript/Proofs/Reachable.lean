import Mathlib.Order.Interval.Set.Defs
import ScopeScript.Proofs.Release

/-!
# States that can be reached

A run only ever refers to frames that have been made: the frames of the scope in which code runs, of
the closures at hand, and of the closures bound in the store. A store that binds no closure with a
frame yet to be made is **intact** (`ScopeScript.Store.Intact`), and every state that can be reached
has such a store (`ScopeScript.State.Reachable.intact`).

That is a statement about one run and not about two. But a run corresponds to itself
(`ScopeScript.unchanged`), and what a correspondence says of two runs it then says of one.
-/

namespace ScopeScript

/-! ### Frames that have been made -/

/-- All frames of the scope are **among the first so many**. -/
def Scope.Within (s : Scope) (size : Nat) : Prop :=
  ∀ id ∈ s.chain, id < size

/-- If the value is a closure, its scope has been made. -/
def Value.Within (v : Value) (size : Nat) : Prop :=
  ∀ c, v = .closure c → c.scope.Within size

/-- What a task refers to **has been made**. -/
def Task.Within : Task → Nat → Prop
  | .expression site _, size => site.scope.Within size
  | .expressions site _, size => site.scope.Within size
  | .call v args _, size => v.Within size ∧ ∀ a ∈ args, a.Within size
  | .statement site _, size => site.scope.Within size
  | .statements site _, size => site.scope.Within size
  | .loop site _ _ _, size => site.scope.Within size

/-- No closure bound in a frame leads to a frame **yet to be made**. -/
def Store.Intact (st : Store) : Prop :=
  ∀ id, ∀ j ∈ st.next id, j < st.frames.size

namespace Store.Intact

variable {st : Store}

/-- A closure that is found has a scope that has been made. -/
theorem within_of_get? (h : st.Intact) {s : Scope} (hs : s.Within st.frames.size) {name : String}
    {v : Value} (hv : st.get? s name = some v) : v.Within st.frames.size := by
  rintro c rfl j hj
  rcases mem_chain_of_find? hv j hj with hj | ⟨id, -, hj⟩
  · exact hs j hj
  · exact h id j hj

theorem define (h : st.Intact) {v : Value} (hv : v.Within st.frames.size) (s : Scope)
    (name : String) : (st.define s name v).Intact := by
  intro id j hj
  rw [size_define]
  rcases mem_next_define hj with hj | ⟨c, hc, hj⟩
  · exact h id j hj
  · exact hv c hc j hj

theorem enclose (h : st.Intact) (s : Scope) : (st.enclose s).2.Intact := by
  intro id j hj
  rw [next, frame_enclose, ← next] at hj
  rw [size_enclose]
  exact Nat.lt_succ_of_lt (h id j hj)

theorem endScope (h : st.Intact) (s : Scope) (survivor : Option Value) :
    (st.endScope s survivor).Intact := by
  intro id j hj
  rw [size_endScope]
  rw [Store.endScope] at hj
  split at hj
  · exact h id j hj
  · rw [next, frame_clear] at hj
    split at hj
    · exact absurd hj List.not_mem_nil
    · exact h id j hj

end Store.Intact

/-! ### A run corresponds to itself -/

theorem Store.size_leave (opts : Options) (st : Store) (s : Scope) (survivor : Option Value) :
    (st.leave opts s survivor).frames.size = st.frames.size := by
  rw [Store.leave]
  split
  · exact size_endScope ..
  · rfl

theorem Store.Intact.leave {st : Store} (h : st.Intact) (opts : Options) (s : Scope)
    (survivor : Option Value) : (st.leave opts s survivor).Intact := by
  rw [Store.leave]
  split
  · exact h.endScope s survivor
  · exact h

/-- A store and itself, with so many frames. -/
def Store.Stays (size : Nat) (st st' : Store) : Prop :=
  st = st' ∧ st.frames.size = size ∧ st.Intact

/-- Runs with the same options **count arguments alike**. -/
theorem Options.strictArity_self (opts : Options) : opts.strictArity = opts.strictArity :=
  rfl

/-- Runs with the same options **have the same limit of calls**. -/
theorem Options.maxCallDepth_self (opts : Options) : opts.maxCallDepth = opts.maxCallDepth :=
  rfl

/-- Lines that are the same **stay so with one more**. -/
theorem push_congr {lines lines' : Array String} (h : lines = lines') (line : String) :
    lines.push line = lines'.push line :=
  congrArg (·.push line) h

/-- **A run, against itself.** The world is the number of frames that have been made, all of which
are in use. -/
def unchanged (opts : Options) : Simulation opts opts where
  World := Nat
  Extends := (· ≤ ·)
  Scopes size := Scope.InUse (Set.Iio size)
  Stores := Store.Stays
  Outputs lines lines' := lines = lines'
  strictArity_eq := opts.strictArity_self
  maxCallDepth_eq := opts.maxCallDepth_self
  refl := Nat.le_refl
  trans := Nat.le_trans
  scopes_mono h hs := ⟨hs.1, fun id hid => Nat.lt_of_lt_of_le (hs.2 id hid) h⟩
  frame_iff hs ht := by rw [hs.1, ht.1]
  lookup {size s s' st st'} hs hst name := by
    obtain ⟨rfl, hs⟩ := hs
    obtain ⟨rfl, rfl, hintact⟩ := hst
    cases hv : st.get? s name with
    | none => exact .none
    | some v => exact .some (Value.alike_self (hintact.within_of_get? hs hv))
  define {size s s' st st' v v'} hs hst hv name := by
    obtain rfl := hv.eq
    obtain ⟨rfl, -⟩ := hs
    obtain ⟨rfl, rfl, hintact⟩ := hst
    exact ⟨rfl, Store.size_define .., hintact.define (fun c hc => (hc ▸ hv).chain_live) s name⟩
  print := @push_congr
  scope {size s s' st st'} hs hst := by
    obtain ⟨rfl, hs⟩ := hs
    obtain ⟨rfl, rfl, hintact⟩ := hst
    refine ⟨st.frames.size + 1, Nat.le_succ _, ⟨rfl, Store.size_enclose .., hintact.enclose s⟩,
      ⟨rfl, fun id hid => ?_⟩, ?_⟩
    · rcases List.mem_cons.mp hid with rfl | hid
      · exact Nat.lt_succ_self _
      · exact Nat.lt_succ_of_lt (hs id hid)
    · rintro size₂ st₂ st₂' survivor survivor' hsize ⟨rfl, rfl, hintact₂⟩ - - hsurvivor
      obtain rfl := Value.eq_of_rel hsurvivor
      exact ⟨st₂.frames.size, Nat.le_of_succ_le hsize,
        ⟨rfl, Store.size_leave .., hintact₂.leave opts _ _⟩, hsurvivor⟩

section Unchanged

variable {opts : Options} {turns : Nat}

theorem Store.Intact.states {st : State} (h : st.store.Intact) :
    (unchanged opts).States (st.store.frames.size : Nat) st st :=
  ⟨⟨rfl, rfl, h⟩, rfl, rfl⟩

theorem Scope.Within.sites {site : Site} {size : Nat} (h : site.scope.Within size) :
    (unchanged opts).Sites (size : Nat) site site :=
  ⟨rfl, rfl, h⟩

theorem Task.Within.tasks {task : Task} {size : Nat} (h : task.Within size) :
    (unchanged opts).Tasks (size : Nat) task task := by
  cases task with
  | expression site e => exact .expression (Scope.Within.sites h) e
  | expressions site es => exact .expressions (Scope.Within.sites h) es
  | call v args span =>
    refine .call (Value.alike_self h.1) ?_ span
    exact List.forall₂_same.mpr fun a ha => Value.alike_self (h.2 a ha)
  | statement site s => exact .statement (Scope.Within.sites h) s
  | statements site ss => exact .statements (Scope.Within.sites h) ss
  | loop site test body k => exact .loop (Scope.Within.sites h) test body k

end Unchanged

/-! ### Reachable states -/

/-- The state with which a step ends, **if it ends**. -/
def Outcome.state? {α : Type} : Outcome α → Option State
  | .done _ st => some st
  | .failed _ st => some st
  | .unfinished => none

/-- The work of the moment **ends** in a state, with a result or with an error. -/
def Moment.EndsIn (opts : Options) (turns : Nat) (m : Moment) (st' : State) : Prop :=
  match m.task with
  | .expression site e =>
    (evaluate (call opts turns m.calls) site e m.state).state? = some st'
  | .expressions site es =>
    (evaluateAll (call opts turns m.calls) site es m.state).state? = some st'
  | .call v args span => (call opts turns m.calls v args span m.state).state? = some st'
  | .statement site s =>
    (execute opts (call opts turns m.calls) turns site s m.state).state? = some st'
  | .statements site ss =>
    (executeAll opts (call opts turns m.calls) turns site .null ss m.state).state? = some st'
  | .loop site test body k =>
    (Eval.repeatWhile (evaluate (call opts turns m.calls) site test)
      (executeAll opts (call opts turns m.calls) turns site .null body) k m.state).state? = some st'

/-- A program that is run **ends as its first moment does**. -/
theorem Interpreter.endsIn_of_run {it it' : Interpreter} {bounds : Bounds} {p : Program}
    {r : Except RuntimeError Value} (h : it.run bounds p = some (r, it')) :
    (it.start bounds p).EndsIn it.options bounds.turns it'.state := by
  change (it.executeAll bounds it.nextText.1 p.statements it.state).state? = some it'.state
  rw [Interpreter.run_apply] at h
  generalize it.executeAll bounds it.nextText.1 p.statements it.state = o at h ⊢
  cases o <;> cases h <;> rfl

/-- **The states that can be reached**: one task after another may be given, and all moments on the
way count. -/
inductive State.Reachable (opts : Options) : State → Prop
  /-- The state before the first step. -/
  | initial : Reachable opts State.initial.2
  /-- A moment of a task. -/
  | moment {st : State} {n turns : Nat} {task : Task} {m : Moment} (h : Reachable opts st)
    (htask : task.Within st.store.frames.size)
    (hm : Moment.Visits opts turns ⟨n, task, st⟩ m) : Reachable opts m.state
  /-- The end of a task. -/
  | ended {st st' : State} {n turns : Nat} {task : Task} (h : Reachable opts st)
    (htask : task.Within st.store.frames.size)
    (hend : Moment.EndsIn opts turns ⟨n, task, st⟩ st') : Reachable opts st'
  /-- A name is bound from outside. -/
  | defined {st : State} {v : Value} (h : Reachable opts st) (s : Scope) (name : String)
    (hv : v.Within st.store.frames.size) : Reachable opts (st.define s name v)
  /-- A scope is opened from outside. -/
  | entered {st : State} (h : Reachable opts st) (s : Scope) : Reachable opts (st.enter s)
  /-- The lines printed are taken away. -/
  | taken {st : State} (h : Reachable opts st) : Reachable opts { st with output := #[] }

/-- At first no frame binds a closure. -/
theorem Store.intact_initial : State.initial.2.store.Intact := by
  have hroot : Store.empty.root.2.Intact := by
    intro id j hj
    obtain ⟨name, c, hmem, -⟩ := Store.mem_next.mp hj
    rw [Store.frame_root, Store.frame_of_size_le (Nat.zero_le id)] at hmem
    exact absurd hmem List.not_mem_nil
  have hprint : ∀ c, Value.builtin ≠ .closure c := nofun
  exact hroot.define (fun c h => absurd h (hprint c)) _ _

/-- What corresponds to itself **ends in an intact store**. -/
theorem Simulation.Meet.intact {opts : Options} {α : Type} {size : Nat}
    {R : Nat → α → α → Prop} {o : Outcome α} {st : State}
    (h : (unchanged opts).Meet (size : Nat) R o o) (ho : o.state? = some st) :
    st.store.Intact := by
  cases h with
  | done _ hst _ =>
    cases ho
    exact hst.stores.2.2
  | failed _ hst =>
    cases ho
    exact hst.stores.2.2
  | unfinished => contradiction

theorem Moment.EndsIn.intact {opts : Options} {turns : Nat} {m : Moment} {st' : State}
    (h : m.EndsIn opts turns st') (hst : m.state.store.Intact)
    (htask : m.task.Within m.state.store.frames.size) : st'.store.Intact := by
  obtain ⟨n, task, st⟩ := m
  have hcall := Simulation.call_meet (unchanged opts) turns n
  have hkeep := call_keeps opts turns n
  have htasks : (unchanged opts).Tasks (st.store.frames.size : Nat) task task := htask.tasks
  cases htasks with
  | expression hs e => exact (Simulation.evaluate_meet hcall e hs hst.states).intact h
  | expressions hs es => exact (Simulation.evaluateAll_meet hcall es hs hst.states).intact h
  | call hv hargs span => exact (hcall _ _ _ _ _ span _ _ hv hargs hst.states).intact h
  | statement hs s =>
    exact (Simulation.execute_meet hkeep hkeep hcall s hs hst.states).intact h
  | statements hs ss =>
    exact (Simulation.executeAll_meet hkeep hkeep hcall ss .null hs hst.states).intact h
  | loop hs test body k =>
    refine (Simulation.repeatWhile_meet ?_ ?_ k hs hst.states).intact h
    · exact fun w st₁ st₁' hs hst₁ => Simulation.evaluate_meet hcall test hs hst₁
    · exact fun w st₁ st₁' hs hst₁ =>
        Simulation.executeAll_meet hkeep hkeep hcall body .null hs hst₁

theorem Task.Within.of_tasks {opts : Options} {size : Nat} {task task' : Task}
    (h : (unchanged opts).Tasks (size : Nat) task task') : task.Within size := by
  cases h with
  | expression hs | expressions hs | statement hs | statements hs | loop hs =>
    exact hs.scopes.2
  | call hv hargs =>
    have hwithin : ∀ v v', (unchanged opts).Values (size : Nat) v v' → v.Within size :=
      fun _ _ h c hc => (hc ▸ h).chain_live
    have hall := hargs.imp fun a a' h => And.intro (hwithin a a' h) h
    exact ⟨hwithin _ _ hv, ((List.forall₂_and_left _ _).mp hall).1⟩

/-- **At every moment of a run** the store is intact, and what the task refers to has been made. -/
theorem Moment.Visits.within {opts : Options} {turns : Nat} {m m₁ : Moment}
    (h : Moment.Visits opts turns m m₁) (hst : m.state.store.Intact)
    (htask : m.task.Within m.state.store.frames.size) :
    m₁.state.store.Intact ∧ m₁.task.Within m₁.state.store.frames.size := by
  have hstart : (unchanged opts).Moments (m.state.store.frames.size : Nat) m m :=
    ⟨rfl, htask.tasks, hst.states⟩
  obtain ⟨size, _, _, hmoments⟩ := Simulation.visits_meet h hstart
  obtain ⟨-, hsize, hintact⟩ := hmoments.state.stores
  exact ⟨hintact, hsize ▸ .of_tasks hmoments.task⟩

/-- **A state that can be reached has an intact store.** -/
theorem State.Reachable.intact {opts : Options} {st : State} (h : st.Reachable opts) :
    st.store.Intact := by
  induction h with
  | initial => exact Store.intact_initial
  | @moment st n turns task m _ htask hm ih =>
    exact (hm.within ih htask).1
  | ended _ htask hend ih => exact hend.intact ih htask
  | defined _ s name hv ih => exact ih.define hv s name
  | entered _ s ih => exact ih.enclose s
  | taken _ ih => exact ih

end ScopeScript
