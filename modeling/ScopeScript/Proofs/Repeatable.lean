import Mathlib.Data.Set.Function
import ScopeScript.Proofs.Reachable

/-!
# Expressions are repeatable

Evaluating an expression leaves every frame as it was, so evaluating it again at once starts from
the same bindings, in a store that has grown. **The second evaluation does what the first did**, in
frames of its own: it prints the same lines, and comes to the same value or the same error
(`ScopeScript.evaluate_repeatable`).

The frames made by the two evaluations are told apart by their numbers only. With `old` frames at
the beginning and `gap` of them made by the first evaluation, what was the frame `id` there is the
frame `ScopeScript.later old gap id` here. The stores correspond if each frame binds what its
counterpart binds, with all frames renamed (`ScopeScript.Store.Renames`). As the renaming takes
different frames to different frames, equality of closures is kept, and as it takes the next frame
to be made to the next frame to be made, it need not change as scopes are opened. Paths between
frames are renamed like everything else, so that a scope is let go of in both evaluations or in
neither.
-/

namespace ScopeScript

/-! ### Renaming frames -/

section Renaming

variable (ρ : FrameId → FrameId)

/-- A scope with its **frames renamed**. -/
def Scope.rename (s : Scope) : Scope :=
  ⟨ρ s.frame, s.outer.map ρ⟩

/-- A value with its frames renamed. -/
def Value.rename : Value → Value
  | .closure c => .closure ⟨c.text, c.decl, c.scope.rename ρ⟩
  | v => v

/-- A binding with its frames renamed. -/
def Binding.rename : Binding → Binding
  | .value v => .value (v.rename ρ)
  | .own text decl => .own text decl

/-- What a frame binds, with all frames renamed. -/
def Frame.rename (f : Frame) : Frame :=
  f.map fun entry => (entry.1, entry.2.rename ρ)

/-- The second scope is the first with its frames renamed. -/
def Scope.Renamed (s s' : Scope) : Prop :=
  s' = s.rename ρ

end Renaming

section Renaming

variable {ρ : FrameId → FrameId}

theorem Scope.chain_rename (s : Scope) : (s.rename ρ).chain = s.chain.map ρ :=
  rfl

/-- A value **corresponds to itself** with its frames renamed. -/
theorem Value.alike_rename (v : Value) : v.Alike (Scope.Renamed ρ) (v.rename ρ) := by
  cases v with
  | closure c => exact .closure c.text c.decl rfl
  | _ => exact .plain nofun

theorem Value.Alike.eq_rename {v v' : Value} (h : v.Alike (Scope.Renamed ρ) v') :
    v' = v.rename ρ := by
  cases h with
  | plain h =>
    cases v with
    | closure c => exact absurd rfl (h c)
    | _ => rfl
  | closure text decl hs => rw [hs, Value.rename]

theorem Binding.resolve_rename (b : Binding) (s : Scope) :
    (b.rename ρ).resolve (s.rename ρ) = (b.resolve s).rename ρ := by
  cases b <;> rfl

/-- A closure over the frame itself **stays one** if different frames are renamed differently. -/
theorem Binding.of_rename (hρ : ρ.Injective) (id : FrameId) (v : Value) :
    Binding.of (ρ id) (v.rename ρ) = (Binding.of id v).rename ρ := by
  cases v with
  | closure c =>
    have hiff : (c.scope.rename ρ).frame = ρ id ↔ c.scope.frame = id := hρ.eq_iff
    by_cases h : c.scope.frame = id
    · rw [Value.rename, Binding.of, Binding.of, if_pos h, if_pos (hiff.mpr h)]
      rfl
    · rw [Value.rename, Binding.of, Binding.of, if_neg h, if_neg (mt hiff.mp h)]
      rfl
  | _ => rfl

theorem Frame.find?_rename (f : Frame) (name : String) :
    (f.rename ρ).find? name = (f.find? name).map (Binding.rename ρ) := by
  induction f with
  | nil => rfl
  | cons entry rest ih =>
    obtain ⟨n, b⟩ := entry
    change (if n = name then some (b.rename ρ) else (Frame.rename ρ rest).find? name) =
      (if n = name then some b else Frame.find? name rest).map (Binding.rename ρ)
    split
    · rfl
    · exact ih

theorem Frame.insert_rename (f : Frame) (name : String) (b : Binding) :
    (f.rename ρ).insert name (b.rename ρ) = (f.insert name b).rename ρ := by
  induction f with
  | nil => rfl
  | cons entry rest ih =>
    obtain ⟨n, old⟩ := entry
    change (if n = name then (name, b.rename ρ) :: Frame.rename ρ rest
        else (n, old.rename ρ) :: Frame.insert name (b.rename ρ) (Frame.rename ρ rest)) =
      Frame.rename ρ (if n = name then (name, b) :: rest else (n, old) :: Frame.insert name b rest)
    split
    · rfl
    · rw [ih]
      rfl

theorem Store.boundScopes_rename (f : Frame) :
    Store.boundScopes (f.rename ρ) = (Store.boundScopes f).map (Scope.rename ρ) := by
  induction f with
  | nil => rfl
  | cons entry rest ih =>
    obtain ⟨n, b⟩ := entry
    have hcons : ∀ entry (rest : Frame), Store.boundScopes (entry :: rest) =
        Store.boundScopes [entry] ++ Store.boundScopes rest := fun entry rest =>
      @List.filterMap_append _ _ [entry] rest _
    have hrename : Frame.rename ρ ((n, b) :: rest) = (n, b.rename ρ) :: Frame.rename ρ rest := rfl
    rw [hrename, hcons, hcons (n, b), List.map_append, ih]
    congr 1
    cases b with
    | value v => cases v <;> rfl
    | own text decl => rfl

end Renaming

/-! ### The frames of the second evaluation -/

/-- The frame that **takes the place** of a frame in the second evaluation: frames that were there
before keep theirs, and `gap` frames come in between for the others. -/
def later (old gap id : Nat) : Nat :=
  if id < old then id else id + gap

theorem later_injective (old gap : Nat) : (later old gap).Injective := by
  intro i j h
  simp only [later] at h
  split at h <;> split at h <;> omega

theorem later_of_lt {old gap id : Nat} (h : id < old) : later old gap id = id :=
  if_pos h

theorem later_of_le {old gap id : Nat} (h : old ≤ id) : later old gap id = id + gap :=
  if_neg (Nat.not_lt_of_le h)

/-- **The second store is the first with all frames renamed**, and binds what it likes in the frames
in between. -/
structure Store.Renames (old gap : Nat) (st st' : Store) : Prop where
  /-- The frames there were before are still there. -/
  old_le : old ≤ st.frames.size
  /-- The second store has more frames. -/
  size_eq : st'.frames.size = st.frames.size + gap
  /-- What a frame binds, its counterpart binds. -/
  frame_eq : ∀ id, st'.frame (later old gap id) = (st.frame id).rename (later old gap)

namespace Store.Renames

variable {old gap : Nat} {st st' : Store}

/-- A frame has been made in the one store if its counterpart has in the other. -/
theorem later_lt_size_iff (h : st.Renames old gap st') {id : Nat} :
    later old gap id < st'.frames.size ↔ id < st.frames.size := by
  have := h.old_le
  rw [h.size_eq, later]
  split <;> omega

theorem find? (h : st.Renames old gap st') (name : String) (ids : List FrameId) :
    st'.find? name (ids.map (later old gap)) =
      (st.find? name ids).map (Value.rename (later old gap)) := by
  induction ids with
  | nil => rfl
  | cons id outer ih =>
    rw [List.map_cons, Store.find?, Store.find?, h.frame_eq id, Frame.find?_rename, ih]
    cases (st.frame id).find? name with
    | none => rfl
    | some b => exact congrArg some (b.resolve_rename ⟨id, outer⟩)

/-- Look-ups find **the same, renamed**. -/
theorem get? (h : st.Renames old gap st') (s : Scope) (name : String) :
    st'.get? (s.rename (later old gap)) name =
      (st.get? s name).map (Value.rename (later old gap)) :=
  h.find? name s.chain

theorem define (h : st.Renames old gap st') (s : Scope) (name : String) (v : Value) :
    (st.define s name v).Renames old gap
      (st'.define (s.rename (later old gap)) name (v.rename (later old gap))) where
  old_le := by simpa using h.old_le
  size_eq := by simpa using h.size_eq
  frame_eq id := by
    by_cases hid : id = s.frame
    · subst hid
      by_cases hlt : s.frame < st.frames.size
      · rw [frame_define_self hlt]
        have hlt' : (s.rename (later old gap)).frame < st'.frames.size :=
          h.later_lt_size_iff.mpr hlt
        refine (frame_define_self hlt').trans ?_
        rw [← Frame.insert_rename, ← Binding.of_rename (later_injective old gap)]
        exact congrArg (Frame.insert name _) (h.frame_eq s.frame)
      · -- a scope without a frame: nothing is bound in either store
        have hle : (st.define s name v).frames.size ≤ s.frame := by
          simpa using Nat.le_of_not_lt hlt
        rw [frame_of_size_le hle, frame_of_size_le]
        · rfl
        · simpa using Nat.le_of_not_lt (mt h.later_lt_size_iff.mp hlt)
    · rw [frame_define_of_ne hid, frame_define_of_ne, h.frame_eq id]
      exact fun heq => hid (later_injective old gap heq)

/-- A scope opened in both stores has **corresponding frames**. -/
theorem enclose_scope (h : st.Renames old gap st') (s : Scope) :
    (st'.enclose (s.rename (later old gap))).1 = (st.enclose s).1.rename (later old gap) := by
  have hframe : later old gap st.frames.size = st'.frames.size := by
    rw [later_of_le h.old_le, h.size_eq]
  exact congrArg (Scope.mk · (s.chain.map (later old gap))) hframe.symm

theorem enclose (h : st.Renames old gap st') (s : Scope) :
    (st.enclose s).2.Renames old gap (st'.enclose (s.rename (later old gap))).2 where
  old_le := by
    rw [size_enclose]
    exact Nat.le_succ_of_le h.old_le
  size_eq := by
    rw [size_enclose, size_enclose, h.size_eq]
    omega
  frame_eq id := by rw [frame_enclose, frame_enclose, h.frame_eq id]

/-! ### Scopes that end -/

theorem next_eq (h : st.Renames old gap st') (id : FrameId) :
    st'.next (later old gap id) = (st.next id).map (later old gap) := by
  rw [next, next, h.frame_eq id, boundScopes_rename, List.flatMap_map, List.map_flatMap]
  rfl

/-- A path from a counterpart is **a path, renamed**. -/
theorem path_iff (h : st.Renames old gap st') {id target : FrameId} :
    st'.Path (later old gap id) (later old gap target) ↔ st.Path id target := by
  constructor
  · intro hpath
    have hback : ∀ j', st'.Path (later old gap id) j' →
        ∃ j, j' = later old gap j ∧ st.Path id j := by
      intro j' hj'
      induction hj' with
      | refl => exact ⟨id, rfl, .refl⟩
      | tail _ hstep ih =>
        obtain ⟨j, rfl, hj⟩ := ih
        rw [h.next_eq] at hstep
        obtain ⟨k, hk, rfl⟩ := List.mem_map.mp hstep
        exact ⟨k, rfl, hj.tail hk⟩
    obtain ⟨j, hj, hpath⟩ := hback _ hpath
    rwa [later_injective old gap hj]
  · intro hpath
    induction hpath with
    | refl => exact .refl
    | tail _ hstep ih =>
      refine ih.tail ?_
      rw [h.next_eq]
      exact List.mem_map_of_mem hstep

/-- A value can reach a frame **if its counterpart can**. -/
theorem reaches_eq (h : st.Renames old gap st') (v : Value) (target : FrameId) :
    st'.reaches (v.rename (later old gap)) (later old gap target) = st.reaches v target := by
  cases v with
  | closure c =>
    rw [Bool.eq_iff_iff, Value.rename, reaches_closure_iff, reaches_closure_iff, Scope.chain_rename]
    constructor
    · rintro ⟨_, hmem, hpath⟩
      obtain ⟨id, hid, rfl⟩ := List.mem_map.mp hmem
      exact ⟨id, hid, h.path_iff.mp hpath⟩
    · rintro ⟨id, hid, hpath⟩
      exact ⟨_, List.mem_map_of_mem hid, h.path_iff.mpr hpath⟩
  | _ => rfl

theorem clear (h : st.Renames old gap st') (s : Scope) :
    (st.clear s).Renames old gap (st'.clear (s.rename (later old gap))) where
  old_le := by simpa using h.old_le
  size_eq := by simpa using h.size_eq
  frame_eq id := by
    have hiff : later old gap id = (s.rename (later old gap)).frame ↔ id = s.frame :=
      (later_injective old gap).eq_iff
    rw [frame_clear, frame_clear, h.frame_eq id]
    by_cases hid : id = s.frame
    · rw [if_pos hid, if_pos (hiff.mpr hid)]
      rfl
    · rw [if_neg hid, if_neg (mt hiff.mp hid)]

/-- **A scope is let go of in both stores or in neither.** -/
theorem leave (h : st.Renames old gap st') (opts : Options) (s : Scope) (survivor : Option Value) :
    (st.leave opts s survivor).Renames old gap
      (st'.leave opts (s.rename (later old gap))
        (survivor.map (Value.rename (later old gap)))) := by
  have hreaches : (survivor.map (Value.rename (later old gap))).any
        (fun v => st'.reaches v (s.rename (later old gap)).frame) =
      survivor.any fun v => st.reaches v s.frame := by
    cases survivor with
    | none => rfl
    | some v => exact h.reaches_eq v s.frame
  rw [Store.leave, Store.leave]
  split
  · rw [endScope, endScope, hreaches]
    split
    · exact h
    · exact h.clear s
  · exact h

end Store.Renames

/-! ### The two evaluations side by side -/

/-- **The first evaluation, against the second.** Nothing has to be learnt on the way: which frame
takes the place of which is known from the beginning. The lines printed before are `before` and
`before'`. -/
def repeated (opts : Options) (old gap : Nat) (before before' : Array String) :
    Simulation opts opts where
  World := Unit
  Extends _ _ := True
  Scopes _ := Scope.Renamed (later old gap)
  Stores _ := Store.Renames old gap
  Outputs lines lines' := ∃ printed, lines = before ++ printed ∧ lines' = before' ++ printed
  strictArity_eq := opts.strictArity_self
  maxCallDepth_eq := opts.maxCallDepth_self
  refl _ := trivial
  trans _ _ := trivial
  scopes_mono _ hs := hs
  frame_iff hs ht := by
    rw [hs, ht]
    exact (later_injective old gap).eq_iff.symm
  lookup {_ s s' st st'} hs hst name := by
    obtain rfl := hs
    rw [hst.get? s name]
    cases st.get? s name with
    | none => exact .none
    | some v => exact .some v.alike_rename
  define {_ s s' st st' v v'} hs hst hv name := by
    obtain rfl := hs
    obtain rfl := hv.eq_rename
    exact hst.define s name v
  print {lines lines'} h line := by
    obtain ⟨printed, rfl, rfl⟩ := h
    exact ⟨printed.push line, by rw [Array.append_push], by rw [Array.append_push]⟩
  scope {_ s s' st st'} hs hst := by
    obtain rfl := hs
    refine ⟨(), trivial, hst.enclose s, hst.enclose_scope s, ?_⟩
    intro _ st₂ st₂' survivor survivor' _ hst₂ _ _ hsurvivor
    have hsame : survivor' = survivor.map (Value.rename (later old gap)) := by
      cases hsurvivor with
      | none => rfl
      | some hv => exact congrArg some hv.eq_rename
    refine ⟨(), trivial, ?_, hsurvivor⟩
    rw [hst.enclose_scope s, hsame]
    exact hst₂.leave opts (st.enclose s).1 survivor

/-! ### The store that the second evaluation starts from -/

/-- Scopes that were there before are **not renamed**. -/
theorem Scope.Within.rename_eq {s : Scope} {old : Nat} (h : s.Within old) (gap : Nat) :
    s.rename (later old gap) = s := by
  have houter : s.outer.map (later old gap) = s.outer :=
    (List.map_congr_left fun id hid => later_of_lt (h id (List.mem_cons_of_mem _ hid))).trans
      (List.map_id _)
  rw [Scope.rename, houter, later_of_lt (h s.frame (List.mem_cons_self ..))]

/-- What a frame of an intact store binds is not renamed. -/
theorem Store.Intact.rename_frame {st : Store} (h : st.Intact) (gap : Nat) (id : FrameId) :
    (st.frame id).rename (later st.frames.size gap) = st.frame id := by
  refine (List.map_congr_left fun entry hentry => ?_).trans (List.map_id _)
  obtain ⟨name, b⟩ := entry
  cases b with
  | own text decl => rfl
  | value v =>
    cases v with
    | closure c =>
      have hc : c.scope.Within st.frames.size := fun j hj =>
        h id j (Store.mem_next.mpr ⟨name, c, hentry, hj⟩)
      rw [Binding.rename, Value.rename, hc.rename_eq gap]
      rfl
    | _ => rfl

/-- **What keeps every frame leads to a store with the same bindings**, and frames in between. -/
theorem State.Kept.renames {st st₁ : State} (h : st.Kept none st₁) (hst : st.store.Intact) :
    st.store.Renames st.store.frames.size (st₁.store.frames.size - st.store.frames.size)
      st₁.store where
  old_le := Nat.le_refl _
  size_eq := by
    have := h.size_le
    omega
  frame_eq id := by
    rw [hst.rename_frame]
    by_cases hid : id < st.store.frames.size
    · rw [later_of_lt hid]
      exact h.frame_eq id hid nofun
    · have hle : st.store.frames.size ≤ id := Nat.le_of_not_lt hid
      rw [later_of_le hle, Store.frame_of_size_le hle, Store.frame_of_size_le]
      have := h.size_le
      omega

/-! ### Evaluating twice -/

/-- **A second evaluation repeats the first**, where `ρ` tells which frame takes the place of
which: the three states are those before, between and after the two. -/
structure State.Repeats (ρ : FrameId → FrameId) (before between after : State) : Prop where
  /-- Frames that were there before take no other place. -/
  fixed : ∀ id < before.store.frames.size, ρ id = id
  /-- The frames made first and those made next take each other's places, one by one. -/
  fresh : Set.BijOn ρ (Set.Ico before.store.frames.size between.store.frames.size)
    (Set.Ico between.store.frames.size after.store.frames.size)
  /-- Each frame is left with what its counterpart is left with. -/
  frame_eq : ∀ id < between.store.frames.size,
    after.store.frame (ρ id) = (between.store.frame id).rename ρ
  /-- The lines printed first are printed again. -/
  output : ∃ printed, between.output = before.output ++ printed ∧
    after.output = between.output ++ printed
  /-- As many calls are in progress all the time. -/
  depth : between.depth = before.depth ∧ after.depth = before.depth

/-- Frames made since are moved **as far as so many have been made**. -/
theorem later_bijOn {old mid last : Nat} (hold : old ≤ mid) (hlast : last = mid + (mid - old)) :
    Set.BijOn (later old (mid - old)) (Set.Ico old mid) (Set.Ico mid last) := by
  refine ⟨fun id hid => ?_, (later_injective _ _).injOn, fun id hid => ?_⟩
  · rw [later_of_le hid.1]
    exact ⟨by have := hid.1; omega, by have := hid.2; omega⟩
  · obtain ⟨hmid, hlt⟩ := hid
    refine ⟨id - (mid - old), ⟨by omega, by omega⟩, ?_⟩
    rw [later_of_le (by omega)]
    omega

theorem State.Repeats.of_states {opts : Options} {w : Unit} {st st₁ st₂ : State}
    (hkept : st.Kept none st₁) (hkept' : st₁.Kept none st₂)
    (h : (repeated opts st.store.frames.size (st₁.store.frames.size - st.store.frames.size)
      st.output st₁.output).States w st₁ st₂) :
    st.Repeats (later st.store.frames.size (st₁.store.frames.size - st.store.frames.size)) st₁
      st₂ where
  fixed _ hid := later_of_lt hid
  fresh := later_bijOn hkept.size_le h.stores.size_eq
  frame_eq id _ := h.stores.frame_eq id
  output := h.outputs
  depth := ⟨hkept.depth_eq, hkept'.depth_eq.trans hkept.depth_eq⟩

/-- **Expressions are repeatable.** From a state that can be reached, an expression is evaluated in
a scope that has been made, and evaluated again at once in the same scope. If the first evaluation
ends, so does the second. It prints the same lines; if the first fails, it fails with the same
error; and if the first has a value, so has the second: the same value, but that the scope of a
closure has the frames that take the place of those of the first. -/
theorem evaluate_repeatable {opts : Options} {st : State} (hst : st.Reachable opts) {site : Site}
    (hsite : site.scope.Within st.store.frames.size) (bounds : Bounds) (e : Expr) :
    (∀ v st₁, evaluate (call opts bounds.turns bounds.calls) site e st = .done v st₁ →
      ∃ ρ v' st₂, evaluate (call opts bounds.turns bounds.calls) site e st₁ = .done v' st₂ ∧
        v.Alike (Scope.Renamed ρ) v' ∧ st.Repeats ρ st₁ st₂) ∧
    ∀ err st₁, evaluate (call opts bounds.turns bounds.calls) site e st = .failed err st₁ →
      ∃ ρ st₂, evaluate (call opts bounds.turns bounds.calls) site e st₁ = .failed err st₂ ∧
        st.Repeats ρ st₁ st₂ := by
  have hkeep := call_keeps opts bounds.turns bounds.calls
  -- the second evaluation starts from what the first has kept
  have hmeet : ∀ st₁, st.Kept none st₁ →
      (repeated opts st.store.frames.size (st₁.store.frames.size - st.store.frames.size) st.output
        st₁.output).Meet () (Simulation.Values _)
        (evaluate (call opts bounds.turns bounds.calls) site e st)
        (evaluate (call opts bounds.turns bounds.calls) site e st₁) := by
    intro st₁ hkept
    refine Simulation.evaluate_meet (Simulation.call_meet _ _ _) e ⟨rfl, ?_⟩
      ⟨hkept.renames hst.intact, ⟨#[], by simp, by simp⟩, hkept.depth_eq.symm⟩
    exact (hsite.rename_eq _).symm
  refine ⟨fun v st₁ h => ?_, fun err st₁ h => ?_⟩
  · have hkept : st.Kept none st₁ := by
      have := (evaluate_kept hkeep e st : (evaluate _ site e st).Leads _)
      rwa [h] at this
    obtain ⟨_, v', st₂, h', -, hst₂, hv⟩ := (hmeet st₁ hkept).of_done h
    have hkept' : st₁.Kept none st₂ := by
      have := (evaluate_kept hkeep e st₁ : (evaluate _ site e st₁).Leads _)
      rwa [h'] at this
    exact ⟨_, v', st₂, h', hv, .of_states hkept hkept' hst₂⟩
  · have hkept : st.Kept none st₁ := by
      have := (evaluate_kept hkeep e st : (evaluate _ site e st).Leads _)
      rwa [h] at this
    obtain ⟨_, st₂, h', -, hst₂⟩ := (hmeet st₁ hkept).of_failed h
    have hkept' : st₁.Kept none st₂ := by
      have := (evaluate_kept hkeep e st₁ : (evaluate _ site e st₁).Leads _)
      rwa [h'] at this
    exact ⟨_, st₂, h', .of_states hkept hkept' hst₂⟩

/-- A call that makes a closure, made twice: the two closures have frames of their own. -/
theorem evaluate_repeatable_escapingClosure :
    ∃ st v st₁, st.Reachable {} ∧ Scope.Within ⟨0, []⟩ st.store.frames.size ∧
      evaluate (call {} 1 2) ⟨1, ⟨0, []⟩⟩
        (.call (.name "make" .none) [.literal (.text "b") .none] .none) st = .done v st₁ ∧
      ∃ ρ v' st₂, evaluate (call {} 1 2) ⟨1, ⟨0, []⟩⟩
          (.call (.name "make" .none) [.literal (.text "b") .none] .none) st₁ = .done v' st₂ ∧
        v.Alike (Scope.Renamed ρ) v' ∧ st.Repeats ρ st₁ st₂ := by
  have hglobals : ∀ size, 0 < size → Scope.Within ⟨0, []⟩ size := by
    intro size hsize id hid
    rw [List.mem_singleton.mp hid]
    exact hsize
  have hreach : ∀ st, Moment.EndsIn {} 1
      ⟨2, .statements ⟨0, ⟨0, []⟩⟩ escapingClosure.statements, State.initial.2⟩ st →
      st.Reachable {} := fun st => .ended .initial (hglobals _ Nat.zero_lt_one)
  have hsize := hglobals _ (Nat.zero_lt_succ 1)
  exact ⟨_, _, _, hreach _ rfl, hsize, rfl,
    (evaluate_repeatable (hreach _ rfl) hsize ⟨1, 2⟩ _).1 _ _ rfl⟩

end ScopeScript
