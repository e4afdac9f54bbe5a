import ScopeScript.Proofs.Reachability
import ScopeScript.Proofs.Visits

/-!
# Letting go of scopes is not seen

When a scope ends, its frame is emptied unless the value that leaves the scope can still reach it.
Only that one value is looked at; the frames of the calls in progress, the arguments evaluated so
far and the closures bound anywhere else are not. This file shows that they need not be.

The run is held against one that lets go of nothing. Of the two stores we know a set of **live**
frames: they are the same in both, and no closure bound in one of them leads out of the set
(`ScopeScript.Store.SameOn`). Every value and every scope that is still in use leads to live frames
only. When a scope ends whose frame is emptied, the frames from which there is a path to it are
dropped from the set. None of those that were live before the scope began is among them: they have
not been written in since, so from them one still comes only to frames that were there before.
-/

namespace ScopeScript

/-! ### Where bindings lead -/

namespace Store

/-- A closure that is found has its scope **in the frames walked through or one step away** from
them. -/
theorem mem_chain_of_find? {st : Store} {name : String} {c : Closure} {ids : List FrameId}
    (h : st.find? name ids = some (.closure c)) :
    ∀ j ∈ c.scope.chain, j ∈ ids ∨ ∃ id ∈ ids, j ∈ st.next id := by
  obtain ⟨id, outer, b, hsuffix, -, hmem, hb⟩ := exists_binding_of_find? h
  intro j hj
  cases b with
  | value v =>
    cases hb
    exact .inr ⟨id, hsuffix.subset (List.mem_cons_self ..), mem_next.mpr ⟨name, c, hmem, hj⟩⟩
  | own text decl =>
    -- the scope put back is the one in which the look-up has come here
    cases hb
    exact .inl (hsuffix.subset hj)

/-- A declaration adds **no step but those of its value**. -/
theorem mem_next_define {st : Store} {s : Scope} {name : String} {v : Value} {id j : FrameId}
    (h : j ∈ (st.define s name v).next id) :
    j ∈ st.next id ∨ ∃ c, v = .closure c ∧ j ∈ c.scope.chain := by
  by_cases hid : id = s.frame
  · subst hid
    by_cases hlt : s.frame < st.frames.size
    · obtain ⟨n, c, hmem, hj⟩ := mem_next.mp h
      rw [frame_define_self hlt] at hmem
      rcases Frame.mem_insert hmem with heq | hmem
      · obtain ⟨-, hc⟩ := Prod.mk.inj heq
        refine .inr ⟨c, ?_, hj⟩
        cases v with
        | closure d =>
          -- kept without its scope, it would lead nowhere
          rw [Binding.of] at hc
          split at hc
          · exact absurd hc nofun
          · exact (Binding.value.inj hc).symm
        | _ => exact (Binding.value.inj hc).symm
      · exact .inl (mem_next.mpr ⟨n, c, hmem, hj⟩)
    · rw [next_of_size_le (by simpa using Nat.le_of_not_lt hlt)] at h
      exact absurd h nofun
  · rw [next, frame_define_of_ne hid] at h
    exact .inl h

/-! ### Live frames -/

/-- **Two stores that agree on a set of live frames**, where nothing that is bound in a live frame
leads out of the set. -/
structure SameOn (live : Set FrameId) (st st' : Store) : Prop where
  /-- As many frames have been made. -/
  size_eq : st.frames.size = st'.frames.size
  /-- Live frames have been made. -/
  lt_size : ∀ id ∈ live, id < st.frames.size
  /-- Live frames bind the same. -/
  frame_eq : ∀ id ∈ live, st.frame id = st'.frame id
  /-- Live frames lead to live frames. -/
  closed : ∀ id ∈ live, ∀ j ∈ st.next id, j ∈ live

end Store

/-- A scope **in use**: the same in both runs, with live frames only. -/
def Scope.InUse (live : Set FrameId) (s s' : Scope) : Prop :=
  s = s' ∧ ∀ id ∈ s.chain, id ∈ live

namespace Value

variable {live : Set FrameId} {v v' : Value}

/-- A value in use: if it is a closure, its scope is. -/
theorem alike_self (h : ∀ c, v = .closure c → ∀ id ∈ c.scope.chain, id ∈ live) :
    v.Alike (Scope.InUse live) v := by
  cases v with
  | closure c => exact .closure c.text c.decl ⟨rfl, h c rfl⟩
  | _ => exact .plain nofun

theorem Alike.eq (h : v.Alike (Scope.InUse live) v') : v = v' := by
  cases h with
  | plain _ => rfl
  | closure text decl hs => rw [hs.1]

theorem eq_of_rel {o o' : Option Value} (h : Option.Rel (Value.Alike (Scope.InUse live)) o o') :
    o = o' := by
  cases h with
  | none => rfl
  | some hv => rw [hv.eq]

theorem Alike.chain_live {c : Closure} (h : (Value.closure c).Alike (Scope.InUse live) v') :
    ∀ id ∈ c.scope.chain, id ∈ live := by
  cases h with
  | plain h => exact absurd rfl (h c)
  | closure text decl hs => exact hs.2

end Value

namespace Store.SameOn

variable {live : Set FrameId} {st st' : Store}

/-- Look-ups in a scope in use **find the same**, and what they find is in use. -/
theorem lookup (h : st.SameOn live st') {s : Scope} (hs : ∀ id ∈ s.chain, id ∈ live)
    (name : String) :
    Option.Rel (Value.Alike (Scope.InUse live)) (st.get? s name) (st'.get? s name) := by
  rw [get?, get?, ← find?_congr fun id hid => h.frame_eq id (hs id hid)]
  cases hv : st.find? name s.chain with
  | none => exact .none
  | some v =>
    refine .some (Value.alike_self fun c hc j hj => ?_)
    rw [hc] at hv
    rcases mem_chain_of_find? hv j hj with hj | ⟨i, hi, hj⟩
    · exact hs j hj
    · exact h.closed i (hs i hi) j hj

/-- A declaration of a value in use. -/
theorem define (h : st.SameOn live st') {v : Value}
    (hv : ∀ c, v = .closure c → ∀ id ∈ c.scope.chain, id ∈ live)
    (s : Scope) (name : String) : (st.define s name v).SameOn live (st'.define s name v) where
  size_eq := by simpa using h.size_eq
  lt_size id hid := by simpa using h.lt_size id hid
  frame_eq id hid := by
    by_cases hne : id = s.frame
    · subst hne
      have hlt := h.lt_size _ hid
      rw [frame_define_self hlt, frame_define_self (h.size_eq ▸ hlt), h.frame_eq _ hid]
    · rw [frame_define_of_ne hne, frame_define_of_ne hne, h.frame_eq id hid]
  closed id hid j hj := by
    rcases mem_next_define hj with hj | ⟨c, hc, hj⟩
    · exact h.closed id hid j hj
    · exact hv c hc j hj

/-- A frame just made **is live**: it is the same in both stores, and leads nowhere. -/
theorem enclose (h : st.SameOn live st') (s : Scope) :
    (st.enclose s).2.SameOn (insert st.frames.size live) (st'.enclose s).2 where
  size_eq := by simp [h.size_eq]
  lt_size id hid := by
    rw [size_enclose]
    rcases Set.mem_insert_iff.mp hid with rfl | hid
    · exact Nat.lt_succ_self _
    · exact Nat.lt_succ_of_lt (h.lt_size id hid)
  frame_eq id hid := by
    rw [frame_enclose, frame_enclose]
    rcases Set.mem_insert_iff.mp hid with rfl | hid
    · rw [frame_of_size_le (Nat.le_refl _), frame_of_size_le (Nat.le_of_eq h.size_eq.symm)]
    · exact h.frame_eq id hid
  closed id hid j hj := by
    rw [next, frame_enclose, ← next] at hj
    rcases Set.mem_insert_iff.mp hid with rfl | hid
    · rw [next_of_size_le (Nat.le_refl _)] at hj
      exact absurd hj List.not_mem_nil
    · exact .inr (h.closed id hid j hj)

/-- **A frame is emptied in one of the stores**: the frames without a path to it stay live. -/
theorem clear (h : st.SameOn live st') (s : Scope) :
    (st.clear s).SameOn {id ∈ live | ¬ st.Path id s.frame} st' := by
  have hframe : ∀ id ∈ {id ∈ live | ¬ st.Path id s.frame},
      (st.clear s).frame id = st.frame id := fun id hid => by
    rw [frame_clear, if_neg]
    rintro rfl
    exact hid.2 .refl
  refine ⟨by simpa using h.size_eq, fun id hid => by simpa using h.lt_size id hid.1,
    fun id hid => (hframe id hid).trans (h.frame_eq id hid.1), fun id hid j hj => ?_⟩
  -- a step to a frame with a path to the emptied one would make such a path itself
  rw [next, hframe id hid] at hj
  exact ⟨h.closed id hid.1 j hj, fun hpath => hid.2 (.head hj hpath)⟩

/-- **From frames that were live before, no path leads to a frame made since**, as long as they have
not been written in. -/
theorem not_path_of_kept (h : st.SameOn live st') {st₂ : Store}
    (hkept : ∀ id < st.frames.size, st₂.frame id = st.frame id) {id : FrameId} (hid : id ∈ live) :
    ¬ st₂.Path id st.frames.size := by
  -- the steps from these frames are still those that they had before
  refine not_path_of_closed (P := (· ∈ live)) (fun i hi j hj => ?_) (fun hmem => ?_) hid
  · rw [next, hkept i (h.lt_size i hi)] at hj
    exact h.closed i hi j hj
  · exact Nat.lt_irrefl _ (h.lt_size _ hmem)

end Store.SameOn

/-! ### Running without letting go -/

/-- The same options, but **no scope is let go of**. -/
def Options.keeping (opts : Options) : Options :=
  { opts with reclaim := false }

/-- **A scope from its beginning to its end**, where one run lets go of scopes and the other does
not: the frames live at the end are those live before and those that the survivor leads to. -/
theorem Store.SameOn.leave {opts : Options} {live live₂ : Set FrameId} {st st' st₂ st₂' : Store}
    {survivor survivor' : Option Value} (h : st.SameOn live st') (h₂ : st₂.SameOn live₂ st₂')
    (hlive : live ⊆ live₂) (hkept : ∀ id < st.frames.size, st₂.frame id = st.frame id)
    (hsurvivor : Option.Rel (Value.Alike (Scope.InUse live₂)) survivor survivor') (s s' : Scope) :
    ∃ live₃, live ⊆ live₃ ∧ (st₂.leave opts (st.enclose s).1 survivor).SameOn live₃
        (st₂'.leave opts.keeping s' survivor') ∧
      Option.Rel (Value.Alike (Scope.InUse live₃)) survivor survivor' := by
  have hkeep : st₂'.leave opts.keeping s' survivor' = st₂' := rfl
  rw [hkeep, Store.leave]
  split
  · rw [Store.endScope]
    split
    · exact ⟨live₂, hlive, h₂, hsurvivor⟩
    · next hnot =>
      -- none of the frames live before leads to the emptied one, nor does the survivor
      refine ⟨{id ∈ live₂ | ¬ st₂.Path id (st.enclose s).1.frame},
        fun id hid => ⟨hlive hid, h.not_path_of_kept hkept hid⟩, h₂.clear (st.enclose s).1, ?_⟩
      cases hsurvivor with
      | none => exact .none
      | @some v v' hv =>
        obtain rfl := hv.eq
        refine .some (Value.alike_self fun c hc id hid => ?_)
        subst hc
        refine ⟨hv.chain_live id hid, fun hpath => hnot ?_⟩
        exact Store.reaches_closure_iff.mpr ⟨id, hid, hpath⟩
  · exact ⟨live₂, hlive, h₂, hsurvivor⟩

/-- **Letting go of scopes, against letting go of nothing.** The world is the set of live frames. -/
def release (opts : Options) : Simulation opts opts.keeping where
  World := Set FrameId
  Extends := (· ⊆ ·)
  Scopes := Scope.InUse
  Stores live st st' := st.SameOn live st'
  Outputs lines lines' := lines = lines'
  strictArity_eq := rfl
  maxCallDepth_eq := rfl
  refl := Set.Subset.refl
  trans := Set.Subset.trans
  scopes_mono h hs := ⟨hs.1, fun id hid => h (hs.2 id hid)⟩
  frame_iff hs ht := by rw [hs.1, ht.1]
  lookup hs hst name := hs.1 ▸ hst.lookup hs.2 name
  define hs hst hv name := by
    obtain rfl := hv.eq
    obtain ⟨rfl, -⟩ := hs
    exact hst.define (fun c hc => (hc ▸ hv).chain_live) _ name
  print h line := congrArg (·.push line) h
  scope {live s s' st st'} hs hst := by
    obtain ⟨rfl, hs⟩ := hs
    refine ⟨insert st.frames.size live, Set.subset_insert _ _, hst.enclose s, ⟨?_, ?_⟩, ?_⟩
    · exact congrArg (Scope.mk · s.chain) hst.size_eq
    · intro id hid
      exact (List.mem_cons.mp hid).imp_right (hs id)
    · -- the new frame is not live any more once the scope has ended
      intro live₂ st₂ st₂' survivor survivor' hlive hst₂ hkept _ hsurvivor
      exact hst.leave hst₂ ((Set.subset_insert _ _).trans hlive) hkept hsurvivor s _

/-! ### What is seen of a run -/

/-- **At first only the global frame is live**: it leads nowhere. -/
theorem Store.sameOn_initial : State.initial.2.store.SameOn {0} State.initial.2.store := by
  have hroot : Store.empty.root.2.SameOn {0} Store.empty.root.2 := by
    refine ⟨rfl, fun id hid => ?_, fun _ _ => rfl, fun id _ j hj => ?_⟩
    · rw [Set.mem_singleton_iff.mp hid]
      exact Nat.zero_lt_one
    · obtain ⟨name, c, hmem, -⟩ := Store.mem_next.mp hj
      rw [Store.frame_root, Store.frame_of_size_le (Nat.zero_le id)] at hmem
      exact absurd hmem (List.not_mem_nil)
  have hprint : ∀ c, Value.builtin ≠ .closure c := nofun
  exact hroot.define (fun c h => absurd h (hprint c)) _ _

theorem release_new (opts : Options) :
    (release opts).Interpreters ({0} : Set FrameId) (Interpreter.new opts)
      (Interpreter.new opts.keeping) :=
  ⟨rfl, rfl, rfl, ⟨rfl, fun _ hid => List.mem_singleton.mp hid⟩, Store.sameOn_initial, rfl, rfl⟩

/-- Interpreters that correspond are **seen to be the same**. -/
theorem seen_eq {opts : Options} {live : Set FrameId} {it it' : Interpreter}
    (h : (release opts).Interpreters live it it') : it.seen = it'.seen := by
  obtain ⟨hglobals, hlive⟩ := h.globals
  refine Prod.ext (congrArg Array.toList h.states.outputs) (funext fun name => ?_)
  rw [Interpreter.seen, Interpreter.seen, ← hglobals]
  exact Value.eq_of_rel (Store.SameOn.lookup h.states.stores hlive name)

theorem results_eq {opts : Options} {live : Set FrameId}
    {rs rs' : List (Except RuntimeError Value)}
    (h : List.Forall₂ ((release opts).Results live) rs rs') : rs = rs' := by
  refine List.forall₂_eq_eq_eq ▸ h.imp fun r r' hr => ?_
  cases hr with
  | ok hv => rw [Value.Alike.eq hv]
  | error e => rfl

/-- **Letting go of scopes is not seen.** Programs are run one after another on one interpreter,
which either lets go of scopes or not: each of them comes to an end in both cases or in neither,
with the same value or the same error; the lines printed and the values of all global names are the
same.

In the program that is run next, every look-up is made with the same name at the same place in both
cases, and finds **each frame of its scope as it is** where nothing has been let go of. -/
theorem release_unobservable (opts : Options) (runs : List (Bounds × Program)) :
    ((Interpreter.new opts).runAll runs).map (fun ran => (ran.1, ran.2.seen)) =
      ((Interpreter.new opts.keeping).runAll runs).map (fun ran => (ran.1, ran.2.seen)) ∧
    ∀ rs it rs' it', (Interpreter.new opts).runAll runs = some (rs, it) →
      (Interpreter.new opts.keeping).runAll runs = some (rs', it') →
      ∀ bounds p site name span store, it.LooksUp bounds p site name span store →
        ∃ store', it'.LooksUp bounds p site name span store' ∧
          ∀ id ∈ site.scope.chain, store.frame id = store'.frame id := by
  have hran := Simulation.runAll_meet runs (release_new opts)
  refine ⟨?_, fun rs it rs' it' hrs hrs' bounds p site name span store hlook => ?_⟩
  · generalize (Interpreter.new opts).runAll runs = o at hran
    generalize (Interpreter.new opts.keeping).runAll runs = o' at hran
    cases hran with
    | none => rfl
    | some h =>
      obtain ⟨live, -, hrs, hit⟩ := h
      rw [Option.map_some, Option.map_some, results_eq hrs, seen_eq hit]
  · rw [hrs, hrs'] at hran
    cases hran with
    | some h =>
      obtain ⟨live, -, -, hit⟩ := h
      obtain ⟨live₁, site', store', hlook', hsite, hstore⟩ := Simulation.looksUp_meet hit hlook
      obtain ⟨hscope, hlive⟩ := hsite.scopes
      have hsame : site' = site := by
        cases site
        cases site'
        exact (congr (congrArg Site.mk hsite.text_eq) hscope).symm
      exact ⟨store', hsame ▸ hlook', fun id hid => hstore.frame_eq id (hlive id hid)⟩

/-- A program that binds a closure over the parameter of a call, which **outlives the call**. -/
def escapingClosure : Program :=
  ⟨[.function "make" ["n"]
      (.mk [.function "get" [] (.mk [.exit (.name "n" .none) .none] .none) .none,
        .exit (.name "get" .none) .none] .none) .none,
    .declare "g" (some (.call (.name "make" .none) [.literal (.text "a") .none] .none)) .none]⟩

/-- The closure is called in the next program, and looks the parameter up. -/
theorem release_unobservable_escapingClosure :
    ∃ rs it rs' it' site store,
      (Interpreter.new {}).runAll [(⟨1, 2⟩, escapingClosure)] = some (rs, it) ∧
      (Interpreter.new (Options.keeping {})).runAll [(⟨1, 2⟩, escapingClosure)] =
        some (rs', it') ∧
      it.LooksUp ⟨1, 2⟩ ⟨[.expression (.call (.name "g" .none) [] .none)]⟩ site "n" .none store ∧
      ∃ store', it'.LooksUp ⟨1, 2⟩ ⟨[.expression (.call (.name "g" .none) [] .none)]⟩ site "n" .none
          store' ∧ ∀ id ∈ site.scope.chain, store.frame id = store'.frame id := by
  have hlook : ∀ rs it, (Interpreter.new {}).runAll [(⟨1, 2⟩, escapingClosure)] = some (rs, it) →
      it.LooksUp ⟨1, 2⟩ ⟨[.expression (.call (.name "g" .none) [] .none)]⟩ ⟨0, ⟨2, [1, 0]⟩⟩ "n"
        .none (it.state.store.enclose ⟨1, [0]⟩).2 := by
    rintro rs it h
    cases h
    exact ⟨1, _, rfl, .head .first <| .head (.value rfl) <| .head (.call rfl rfl) <|
      .head (.body (by decide) (by decide)) <| .head .first <| .head (.value rfl) .refl⟩
  exact ⟨_, _, _, _, _, _, rfl, rfl, hlook _ _ rfl,
    (release_unobservable {} [(⟨1, 2⟩, escapingClosure)]).2 _ _ _ _ rfl rfl _ _ _ _ _ _
      (hlook _ _ rfl)⟩

end ScopeScript
