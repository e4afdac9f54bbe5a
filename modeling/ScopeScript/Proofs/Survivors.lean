import ScopeScript.Proofs.Reachability

/-!
# What the survivor of a scope keeps

The frames of a store and the scopes in use make a graph: from a scope one comes **outwards**, to the
scope around it, and **along a closure** that its frame binds, to the scope in which that closure was
declared (`ScopeScript.Store.Link`). A closure kept without its scope makes such a link too, but one
from the scope to itself.

A scope that ends is let go of exactly if there is no way to it from the value that leaves it
(`ScopeScript.Store.endScope_empties_unreachable`). The search that decides this goes in rounds and
is given so many of them. It is shown to be the search **without any bound**, which always comes to
an end (`ScopeScript.Store.searched_reaches`): each round but the last two sees a frame of the store
for the first time, however the frames refer to one another.
-/

namespace ScopeScript

namespace Store

/-! ### The graph of scopes -/

/-- One scope **leads to another**: outwards, or along a closure that its frame binds. -/
inductive Link (st : Store) : Scope → Scope → Prop where
  /-- The scope around. -/
  | outward (id : FrameId) (s : Scope) : Link st ⟨id, s.chain⟩ s
  /-- The scope of a closure that is bound here. -/
  | bound {s : Scope} {name : String} {b : Binding} {c : Closure}
    (hmem : (name, b) ∈ st.frame s.frame) (hb : b.resolve s = .closure c) : Link st s c.scope

/-- There is a **way from a value to a frame**: the value is a closure, and links lead from its scope
to a scope with that frame. -/
def Way (st : Store) (v : Value) (target : FrameId) : Prop :=
  ∃ c t, v = .closure c ∧ Relation.ReflTransGen st.Link c.scope t ∧ t.frame = target

section Links

variable {st : Store} {s t : Scope}

/-- Outwards one comes to **every scope around**. -/
theorem links_outward (st : Store) {id : FrameId} (h : id ∈ s.chain) :
    ∃ t, Relation.ReflTransGen st.Link s t ∧ t.frame = id := by
  obtain ⟨frame, outer⟩ := s
  induction outer generalizing frame with
  | nil =>
    obtain rfl := List.mem_singleton.mp h
    exact ⟨_, .refl, rfl⟩
  | cons next outer ih =>
    rcases List.mem_cons.mp h with rfl | h
    · exact ⟨_, .refl, rfl⟩
    · obtain ⟨t, hlinks, ht⟩ := ih next h
      exact ⟨t, .head (.outward frame ⟨next, outer⟩) hlinks, ht⟩

/-- What is in a chain that links lead to **has a path to it**. -/
theorem exists_path_of_links (h : Relation.ReflTransGen st.Link s t) :
    ∀ id ∈ t.chain, ∃ i ∈ s.chain, st.Path i id := by
  induction h with
  | refl => exact fun id hid => ⟨id, hid, .refl⟩
  | @tail u _ _ hlink ih =>
    intro id hid
    cases hlink with
    | outward _ _ => exact ih id (List.mem_cons_of_mem _ hid)
    | @bound _ name b c hmem hb =>
      cases b with
      | own text decl =>
        -- the closure is one over the scope itself
        cases hb
        exact ih id hid
      | value v =>
        cases hb
        obtain ⟨i, hi, hpath⟩ := ih u.frame (List.mem_cons_self ..)
        exact ⟨i, hi, hpath.tail (mem_next.mpr ⟨name, c, hmem, hid⟩)⟩

/-- A path is **followed by links**, from any scope with its first frame. -/
theorem exists_links_of_path {id target : FrameId} (h : st.Path id target) (hs : s.frame = id) :
    ∃ t, Relation.ReflTransGen st.Link s t ∧ t.frame = target := by
  induction h with
  | refl => exact ⟨s, .refl, hs⟩
  | tail _ hstep ih =>
    obtain ⟨u, hlinks, rfl⟩ := ih
    obtain ⟨name, c, hmem, hj⟩ := mem_next.mp hstep
    obtain ⟨t, houtward, ht⟩ := links_outward st hj
    exact ⟨t, (hlinks.tail (.bound hmem rfl)).trans houtward, ht⟩

/-- **The search finds the ways that there are.** -/
theorem reaches_iff_way {v : Value} {target : FrameId} :
    st.reaches v target = true ↔ st.Way v target := by
  cases v with
  | closure c =>
    rw [reaches_closure_iff]
    constructor
    · rintro ⟨id, hid, hpath⟩
      obtain ⟨t, houtward, ht⟩ := links_outward st hid
      obtain ⟨u, hlinks, hu⟩ := exists_links_of_path hpath ht
      exact ⟨c, u, rfl, houtward.trans hlinks, hu⟩
    · rintro ⟨_, t, ⟨⟩, hlinks, rfl⟩
      exact exists_path_of_links hlinks t.frame (List.mem_cons_self ..)
  | _ => exact ⟨nofun, fun ⟨_, _, h, _⟩ => nomatch h⟩

end Links

/-! ### The search comes to an end -/

/-- The search **without a bound on its rounds** comes to an end with an answer. -/
inductive Searched (st : Store) (target : FrameId) : Nat → List FrameId → Bool → Prop where
  /-- The frame is among those that are new in the round. -/
  | found {seen : Nat} {reached : List FrameId} (h : target ∈ (note seen [] reached).2) :
    Searched st target seen reached true
  /-- No frame is new. -/
  | exhausted {seen : Nat} {reached : List FrameId} (h : (note seen [] reached).2 = []) :
    Searched st target seen reached false
  /-- From the new frames the search goes on. -/
  | round {seen : Nat} {reached : List FrameId} {answer : Bool}
    (htarget : target ∉ (note seen [] reached).2) (hnew : (note seen [] reached).2 ≠ [])
    (h : Searched st target (note seen [] reached).1 ((note seen [] reached).2.flatMap st.next)
      answer) : Searched st target seen reached answer

variable {st : Store} {target : FrameId}

/-- With rounds enough, the search **does not run out of them**. -/
theorem searched_of_suffices (n seen : Nat) (reached : List FrameId)
    (h : st.Suffices n seen reached) :
    st.Searched target seen reached (st.search target n seen reached) := by
  induction n generalizing seen reached with
  | zero => exact absurd h (not_suffices_zero seen reached)
  | succ n ih =>
    rw [search_succ]
    split
    · next hfound => exact .found (List.contains_iff_mem.mp hfound)
    · next hmiss =>
      split
      · next hempty => exact .exhausted (List.isEmpty_iff.mp hempty)
      · next hnew =>
        exact .round (mt List.contains_iff_mem.mpr hmiss) (mt List.isEmpty_iff.mpr hnew)
          (ih _ _ (h.round (mt List.isEmpty_iff.mpr hnew)))

/-- **The search for a frame comes to an end**, with the answer that it is given. -/
theorem searched_reaches (st : Store) (c : Closure) (target : FrameId) :
    st.Searched target 0 c.scope.chain (st.reaches (.closure c) target) :=
  searched_of_suffices _ _ _ (suffices_of_size st c.scope.chain)

/-! ### The end of a scope -/

/-- From an emptied frame **only the link outwards** is left. -/
theorem link_iff_of_frame_eq_nil {s t : Scope} (h : st.frame s.frame = []) :
    st.Link s t ↔ s.outer = t.chain := by
  constructor
  · intro hlink
    cases hlink with
    | outward _ _ => rfl
    | bound hmem _ =>
      rw [h] at hmem
      exact absurd hmem List.not_mem_nil
  · intro houter
    obtain ⟨frame, outer⟩ := s
    obtain rfl : outer = t.chain := houter
    exact .outward frame t

/-- **A scope that ends is let go of exactly if its survivor cannot come back to it.**

The search for the frame of the scope comes to an end, and says yes exactly if there is a way to it
from the value that leaves the scope. If there is one, every frame stays as it is. Otherwise, or if
no value leaves the scope, its frame is emptied and every other frame stays as it is; no frame goes,
and from the emptied one the link outwards is left. -/
theorem endScope_empties_unreachable (st : Store) (s : Scope) (survivor : Option Value) :
    (∀ v, st.reaches v s.frame = true ↔ st.Way v s.frame) ∧
    (∀ c, st.Searched s.frame 0 c.scope.chain (st.reaches (.closure c) s.frame)) ∧
    ((∃ v, survivor = some v ∧ st.Way v s.frame) → st.endScope s survivor = st) ∧
    ((¬ ∃ v, survivor = some v ∧ st.Way v s.frame) →
      (st.endScope s survivor).frames.size = st.frames.size ∧
      (st.endScope s survivor).frame s.frame = [] ∧
      (∀ id, id ≠ s.frame → (st.endScope s survivor).frame id = st.frame id) ∧
      ∀ t, (st.endScope s survivor).Link s t ↔ s.outer = t.chain) := by
  have hany : (survivor.any fun v => st.reaches v s.frame) = true ↔
      ∃ v, survivor = some v ∧ st.Way v s.frame := by
    simp only [Option.any_eq_true, reaches_iff_way]
  refine ⟨fun v => reaches_iff_way, fun c => searched_reaches st c s.frame, fun hway => ?_,
    fun hnone => ?_⟩
  · rw [endScope, if_pos (hany.mpr hway)]
  · have hcleared : st.endScope s survivor = st.clear s := by
      rw [endScope, if_neg (mt hany.mp hnone)]
    have hempty : (st.clear s).frame s.frame = [] := by
      rw [frame_clear, if_pos rfl]
    rw [hcleared]
    refine ⟨size_clear st s, hempty, fun id hid => ?_, fun t => link_iff_of_frame_eq_nil hempty⟩
    rw [frame_clear, if_neg hid]

end Store

end ScopeScript
