import Mathlib.Data.Finset.Card
import Mathlib.Logic.Relation
import ScopeScript.Store.ScopeEnd

/-!
# The search finds what can be reached

When a scope ends, a search decides whether the value that leaves it can still reach its frame.
Here the search is held against what it is meant to decide: `ScopeScript.Store.Path`, a walk along
any number of closures bound in the frames on the way.

**The search says yes exactly if there is a path** (`ScopeScript.Store.reaches_closure_iff`),
whatever the frames are and however they refer to one another. The invariant of its rounds is that
whatever can be reached in one step from a frame seen before has been seen, or is reached in this
round; the rounds do not run out, because each of them but the last two sees a frame of the store
for the first time.
-/

namespace ScopeScript

namespace Store

/-- **One frame leads to another** in any number of steps. -/
def Path (st : Store) : FrameId → FrameId → Prop :=
  Relation.ReflTransGen fun a b => b ∈ st.next a

/-! ### Taking note of frames -/

theorem testBit_note (seen : Nat) (fresh ids : List FrameId) (j : FrameId) :
    (note seen fresh ids).1.testBit j = true ↔ seen.testBit j = true ∨ j ∈ ids := by
  induction ids generalizing seen fresh with
  | nil => simp [note]
  | cons id ids ih =>
    rw [note]
    split
    · next h =>
      rw [ih]
      constructor
      · rintro (hj | hj)
        · exact .inl hj
        · exact .inr (List.mem_cons_of_mem id hj)
      · rintro (hj | hj)
        · exact .inl hj
        · rcases List.mem_cons.mp hj with rfl | hj
          · exact .inl h
          · exact .inr hj
    · rw [ih, Nat.testBit_or, Nat.one_shiftLeft, Nat.testBit_two_pow, List.mem_cons,
        Bool.or_eq_true, decide_eq_true_eq, or_assoc, eq_comm (a := id)]

theorem mem_note {seen : Nat} {fresh ids : List FrameId} {j : FrameId} :
    j ∈ (note seen fresh ids).2 ↔ j ∈ fresh ∨ j ∈ ids ∧ seen.testBit j = false := by
  induction ids generalizing seen fresh with
  | nil => simp [note]
  | cons id ids ih =>
    rw [note]
    by_cases hj : j = id
    · subst hj
      split
      · next h => simp [ih, h]
      · next h => simp [ih, h]
    · split
      · simp [ih, hj]
      · simp [ih, hj, Nat.testBit_or, Nat.one_shiftLeft, Ne.symm hj]

/-- The frames that are **new in a round** are those reached and not seen before. -/
theorem mem_fresh {seen : Nat} {reached : List FrameId} {j : FrameId} :
    j ∈ (note seen [] reached).2 ↔ j ∈ reached ∧ seen.testBit j = false := by
  simp [mem_note]

/-! ### The rounds of the search -/

section Rounds

variable {st : Store} {target : FrameId}

/-- The frames of the store that have **not been seen yet**. -/
def unseen (st : Store) (seen : Nat) : Finset FrameId :=
  {id ∈ Finset.range st.frames.size | seen.testBit id = false}

/-- A frame seen for the first time is one less to see. -/
theorem card_unseen_lt {seen : Nat} {reached : List FrameId} {id : FrameId}
    (hid : id ∈ (note seen [] reached).2) (hlt : id < st.frames.size) :
    (st.unseen (note seen [] reached).1).card < (st.unseen seen).card := by
  obtain ⟨hreached, hnew⟩ := mem_fresh.mp hid
  -- no frame becomes unseen again, and this one is not unseen any more
  refine Finset.card_lt_card ⟨fun j hj => ?_, fun hsub => ?_⟩
  · rw [unseen, Finset.mem_filter, Finset.mem_range] at hj ⊢
    refine ⟨hj.1, Bool.eq_false_iff.mpr fun h => ?_⟩
    exact absurd ((testBit_note seen [] reached j).mpr (.inl h)) (by simp [hj.2])
  · have hmem : id ∈ st.unseen seen := by simp [unseen, hlt, hnew]
    have hgone := (Finset.mem_filter.mp (hsub hmem)).2
    exact absurd ((testBit_note seen [] reached id).mpr (.inr hreached)) (by simp [hgone])

/-- A frame that the store does not have leads nowhere. -/
theorem next_of_size_le {id : FrameId} (h : st.frames.size ≤ id) : st.next id = [] := by
  simp [next, frame_of_size_le h, boundScopes]

/-- There are **rounds enough** left: two more than frames of the store that have not been seen, or one
if nothing has been reached. -/
def Suffices (st : Store) (n seen : Nat) (reached : List FrameId) : Prop :=
  (st.unseen seen).card + 2 ≤ n ∨ reached = [] ∧ 1 ≤ n

theorem not_suffices_zero (seen : Nat) (reached : List FrameId) : ¬ st.Suffices 0 seen reached := by
  rw [Suffices]
  omega

/-- At first there are two rounds more than frames. -/
theorem suffices_of_size (st : Store) (reached : List FrameId) :
    st.Suffices (st.frames.size + 2) 0 reached := by
  have hcard := Finset.card_filter_le (Finset.range st.frames.size) fun id =>
    Nat.testBit 0 id = false
  rw [Finset.card_range] at hcard
  exact .inl (Nat.add_le_add_right hcard 2)

/-- A round in which something is new **leaves rounds enough**: a frame of the store is seen for the
first time, or there is nothing to go on from. -/
theorem Suffices.round {n seen : Nat} {reached : List FrameId}
    (h : st.Suffices (n + 1) seen reached) (hnew : (note seen [] reached).2 ≠ []) :
    st.Suffices n (note seen [] reached).1 ((note seen [] reached).2.flatMap st.next) := by
  have hcard : (st.unseen seen).card + 2 ≤ n + 1 := by
    refine h.resolve_right fun hnil => hnew ?_
    simp [hnil.1, note]
  by_cases hsome : ∃ i ∈ (note seen [] reached).2, i < st.frames.size
  · obtain ⟨i, hi, hlt⟩ := hsome
    have := card_unseen_lt hi hlt
    exact .inl (by omega)
  · refine .inr ⟨List.flatMap_eq_nil_iff.mpr fun i hi => next_of_size_le ?_, by omega⟩
    exact Nat.le_of_not_lt fun hlt => hsome ⟨i, hi, hlt⟩

theorem search_succ (n seen : Nat) (reached : List FrameId) :
    st.search target (n + 1) seen reached =
      if (note seen [] reached).2.contains target then true
      else if (note seen [] reached).2.isEmpty then false
      else st.search target n (note seen [] reached).1
        ((note seen [] reached).2.flatMap st.next) :=
  rfl

/-- What the search finds **can be reached**. -/
theorem exists_path_of_search (n seen : Nat) (reached : List FrameId)
    (h : st.search target n seen reached = true) : ∃ id ∈ reached, st.Path id target := by
  induction n generalizing seen reached with
  | zero => exact absurd h (by simp [search])
  | succ n ih =>
    rw [search_succ] at h
    split at h
    · next hfound => exact ⟨target, (mem_fresh.mp (List.contains_iff_mem.mp hfound)).1, .refl⟩
    · split at h
      · exact absurd h (by simp)
      · obtain ⟨id, hid, hpath⟩ := ih _ _ h
        obtain ⟨j, hj, hstep⟩ := List.mem_flatMap.mp hid
        exact ⟨j, (mem_fresh.mp hj).1, .head hstep hpath⟩

/-- A set of frames that no step leads out of **does not lead to a frame outside**. -/
theorem not_path_of_closed {P : FrameId → Prop} (hclosed : ∀ id, P id → ∀ j ∈ st.next id, P j)
    (htarget : ¬ P target) {id : FrameId} (hid : P id) : ¬ st.Path id target := by
  intro hpath
  refine htarget ?_
  -- the induction is on the end of the path, so that the target must be free
  clear htarget
  induction hpath with
  | refl => exact hid
  | tail _ hstep ih => exact hclosed _ ih _ hstep

/-- What the search does not find **cannot be reached**. The frames seen so far lead only to frames
that have been seen or are reached in this round, and there are rounds enough for the frames of the
store that have not been seen. -/
theorem not_path_of_search (n seen : Nat) (reached : List FrameId)
    (h : st.search target n seen reached = false) (htarget : seen.testBit target = false)
    (hclosed : ∀ id, seen.testBit id = true → ∀ j ∈ st.next id, seen.testBit j = true ∨ j ∈ reached)
    (hrounds : st.Suffices n seen reached) :
    ∀ id, seen.testBit id = true ∨ id ∈ reached → ¬ st.Path id target := by
  induction n generalizing seen reached with
  | zero => exact absurd hrounds (not_suffices_zero seen reached)
  | succ n ih =>
    rw [search_succ] at h
    split at h
    · exact absurd h (by simp)
    · next hnot =>
      -- had the target been reached, it would have been found in this round
      have hmiss : target ∉ reached := fun hmem =>
        hnot (List.contains_iff_mem.mpr (mem_fresh.mpr ⟨hmem, htarget⟩))
      have htarget' : (note seen [] reached).1.testBit target = false := by
        rw [Bool.eq_false_iff, ne_eq, testBit_note]
        simp [htarget, hmiss]
      split at h
      · next hempty =>
        -- nothing new: what has been seen is closed under steps
        have hold : ∀ id ∈ reached, seen.testBit id = true := fun id hid => by
          by_contra hne
          have : id ∈ (note seen [] reached).2 := mem_fresh.mpr ⟨hid, by simpa using hne⟩
          rw [List.isEmpty_iff.mp hempty] at this
          exact absurd this (by simp)
        intro id hid
        have hseen : seen.testBit id = true := hid.elim (fun h => h) (hold id)
        refine not_path_of_closed (P := fun id => seen.testBit id = true) (fun i hi j hj => ?_)
          (by simp [htarget]) hseen
        exact (hclosed i hi j hj).elim (fun h => h) (hold j)
      · next hnew =>
        intro id hid
        -- the frames reached now are those one step from the new ones
        refine ih _ _ h htarget' (fun i hi j hj => ?_)
          (hrounds.round (mt List.isEmpty_iff.mpr hnew)) id
          (.inl ((testBit_note seen [] reached id).mpr hid))
        rw [testBit_note] at hi ⊢
        by_cases hs : seen.testBit i = true
        · exact .inl (hclosed i hs j hj)
        · have hr : i ∈ reached := hi.resolve_left hs
          exact .inr (List.mem_flatMap.mpr ⟨i, mem_fresh.mpr ⟨hr, by simpa using hs⟩, hj⟩)

end Rounds

/-- **A closure reaches a frame exactly if there is a path to it** from a frame of its scope. -/
theorem reaches_closure_iff {st : Store} {c : Closure} {target : FrameId} :
    st.reaches (.closure c) target = true ↔ ∃ id ∈ c.scope.chain, st.Path id target := by
  constructor
  · exact exists_path_of_search _ _ _
  · rintro ⟨id, hid, hpath⟩
    by_contra hnot
    exact not_path_of_search _ _ _ (Bool.eq_false_iff.mpr hnot) (by simp) (by simp)
      (suffices_of_size st c.scope.chain) id (.inr hid) hpath

end Store

end ScopeScript
