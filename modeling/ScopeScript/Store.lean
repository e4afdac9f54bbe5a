import ScopeScript.Value

/-!
# Frames and what they bind

A **store** holds the frames that have been made so far, and a frame binds names to values. Names
are bound in the innermost frame of a scope only, and looked up from the innermost frame outwards.

A frame binds a closure that was declared in that very frame by its declaration alone; a look-up
puts the closure together again from the declaration and the scope in which it was found. So no
frame refers to itself, and the rebuilt closure is the same closure as before.

## Main definitions

* `ScopeScript.Store`: the frames; `ScopeScript.Frame`: what one of them binds.
* `ScopeScript.Store.root`, `ScopeScript.Store.enclose`: new frames.
* `ScopeScript.Store.define`, `ScopeScript.Store.get?`, `ScopeScript.Store.clear`
* `ScopeScript.Store.names`: the names that can be seen from a scope.
-/

namespace ScopeScript

/-! ### Frames -/

/-- What a name is **bound to** in a frame. -/
inductive Binding where
  /-- A value. -/
  | value (v : Value)
  /-- A closure over the frame itself, kept without its scope. -/
  | own (text : Nat) (decl : FunctionDecl)

/-- How a frame keeps a value: a closure over that frame loses its scope. -/
def Binding.of (id : FrameId) : Value → Binding
  | .closure c => if c.scope.frame = id then .own c.text c.decl else .value (.closure c)
  | v => .value v

/-- The **value bound**, when the binding is found in the given scope. A closure kept without its
scope always has one to be put back in: frames are emptied but never taken away, and what a look-up
finds is bound in a frame that has been made (`ScopeScript.Store.exists_binding_of_find?`). -/
def Binding.resolve (found : Scope) : Binding → Value
  | .value v => v
  | .own text decl => .closure ⟨text, decl, found⟩

/-- A **frame**: names with their bindings, each name once, in the order in which they came. -/
abbrev Frame : Type := List (String × Binding)

namespace Frame

/-- The binding of a name. -/
def find? (name : String) : Frame → Option Binding
  | [] => none
  | (n, b) :: rest => if n = name then some b else find? name rest

/-- Binds a name, **in place of its earlier binding** if it has one. -/
def insert (name : String) (b : Binding) : Frame → Frame
  | [] => [(name, b)]
  | (n, old) :: rest => if n = name then (name, b) :: rest else (n, old) :: insert name b rest

theorem find?_insert (name other : String) (b : Binding) (f : Frame) :
    (f.insert name b).find? other = if name = other then some b else f.find? other := by
  induction f with
  | nil => simp [insert, find?]
  | cons entry rest ih =>
    obtain ⟨n, old⟩ := entry
    by_cases hn : n = name
    · subst hn
      by_cases ho : n = other <;> simp [insert, find?, ho]
    · by_cases ho : n = other
      · subst ho
        simp [insert, find?, hn, Ne.symm hn]
      · simp [insert, find?, hn, ho, ih]

theorem mem_insert {name : String} {b : Binding} {f : Frame} {entry : String × Binding}
    (h : entry ∈ f.insert name b) : entry = (name, b) ∨ entry ∈ f := by
  induction f with
  | nil => exact .inl (List.mem_singleton.mp h)
  | cons first rest ih =>
    rw [insert] at h
    split at h
    · exact (List.mem_cons.mp h).imp_right (List.mem_cons_of_mem first)
    · rcases List.mem_cons.mp h with rfl | h
      · exact .inr (List.mem_cons_self ..)
      · exact (ih h).imp_right (List.mem_cons_of_mem first)

theorem isSome_find?_iff {name : String} {f : Frame} :
    (f.find? name).isSome ↔ name ∈ f.map Prod.fst := by
  induction f with
  | nil => simp [find?]
  | cons entry rest ih =>
    obtain ⟨n, b⟩ := entry
    by_cases hn : n = name
    · simp [find?, hn]
    · simp [find?, hn, ih, Ne.symm hn]

theorem mem_of_find? {name : String} {b : Binding} {f : Frame} (h : f.find? name = some b) :
    (name, b) ∈ f := by
  induction f with
  | nil => exact absurd h nofun
  | cons first rest ih =>
    obtain ⟨n, old⟩ := first
    rw [find?] at h
    split at h
    · next hn =>
      cases h
      exact hn ▸ List.mem_cons_self ..
    · exact List.mem_cons_of_mem _ (ih h)

end Frame

/-! ### Stores -/

/-- **All frames**, by their numbers. -/
structure Store where
  /-- The frames in the order in which they were made. -/
  frames : Array Frame

namespace Store

/-- The store without frames. -/
def empty : Store := ⟨#[]⟩

/-- The frame of the given number; a number that no frame has stands for a frame without names. -/
def frame (st : Store) (id : FrameId) : Frame :=
  st.frames[id]?.getD []

/-- A new scope with **no frames around** it. -/
def root (st : Store) : Scope × Store :=
  (⟨st.frames.size, []⟩, ⟨st.frames.push []⟩)

/-- A new scope **inside** the given one. -/
def enclose (st : Store) (s : Scope) : Scope × Store :=
  (⟨st.frames.size, s.chain⟩, ⟨st.frames.push []⟩)

/-- **Binds a name** in the innermost frame of a scope; frames around it are not touched. -/
def define (st : Store) (s : Scope) (name : String) (v : Value) : Store :=
  ⟨st.frames.modify s.frame (Frame.insert name (.of s.frame v))⟩

/-- Empties the innermost frame of a scope. -/
def clear (st : Store) (s : Scope) : Store :=
  ⟨st.frames.modify s.frame fun _ => []⟩

/-- Looks a name up in one frame after another. -/
def find? (st : Store) (name : String) : List FrameId → Option Value
  | [] => none
  | id :: outer =>
    match (st.frame id).find? name with
    | some b => some (b.resolve ⟨id, outer⟩)
    | none => find? st name outer

/-- The value of a name: its binding in the **innermost frame that has one**. -/
def get? (st : Store) (s : Scope) (name : String) : Option Value :=
  st.find? name s.chain

/-! ### What an operation leaves in each frame -/

@[simp] theorem size_enclose (st : Store) (s : Scope) :
    (st.enclose s).2.frames.size = st.frames.size + 1 := by
  simp [enclose]

@[simp] theorem frame_enclose_scope (st : Store) (s : Scope) :
    (st.enclose s).1.frame = st.frames.size := rfl

@[simp] theorem size_define (st : Store) (s : Scope) (name : String) (v : Value) :
    (st.define s name v).frames.size = st.frames.size := by
  simp [define]

@[simp] theorem size_clear (st : Store) (s : Scope) :
    (st.clear s).frames.size = st.frames.size := by
  simp [clear]

theorem frame_of_size_le {st : Store} {id : FrameId} (h : st.frames.size ≤ id) :
    st.frame id = [] := by
  simp [frame, h]

/-- A frame that binds anything **has been made**. -/
theorem lt_size_of_mem {st : Store} {id : FrameId} {entry : String × Binding}
    (h : entry ∈ st.frame id) : id < st.frames.size := by
  refine Nat.lt_of_not_le fun hle => ?_
  rw [frame_of_size_le hle] at h
  exact absurd h List.not_mem_nil

theorem frame_root (st : Store) (id : FrameId) : st.root.2.frame id = st.frame id := by
  simp only [root, frame, Array.getElem?_push]
  split
  · next h => simp [h]
  · rfl

theorem frame_enclose (st : Store) (s : Scope) (id : FrameId) :
    (st.enclose s).2.frame id = st.frame id := by
  simp only [enclose, frame, Array.getElem?_push]
  split
  · next h => simp [h]
  · rfl

theorem frame_define_of_ne {st : Store} {s : Scope} {name : String} {v : Value} {id : FrameId}
    (h : id ≠ s.frame) : (st.define s name v).frame id = st.frame id := by
  simp [define, frame, Array.getElem?_modify, Ne.symm h]

theorem frame_define_self {st : Store} {s : Scope} {name : String} {v : Value}
    (h : s.frame < st.frames.size) :
    (st.define s name v).frame s.frame = (st.frame s.frame).insert name (.of s.frame v) := by
  simp [define, frame, Array.getElem_modify, h]

theorem frame_define (st : Store) (s : Scope) (name : String) (v : Value) (id : FrameId) :
    (st.define s name v).frame id =
      if id = s.frame ∧ s.frame < st.frames.size then
        (st.frame id).insert name (.of s.frame v)
      else st.frame id := by
  split
  · next h => rw [h.1, frame_define_self h.2]
  · next h =>
    by_cases hid : id = s.frame
    · have hsize : st.frames.size ≤ id := by
        rw [hid]
        exact Nat.le_of_not_lt fun hlt => h ⟨hid, hlt⟩
      rw [frame_of_size_le hsize, frame_of_size_le]
      rwa [size_define]
    · exact frame_define_of_ne hid

theorem frame_clear (st : Store) (s : Scope) (id : FrameId) :
    (st.clear s).frame id = if id = s.frame then [] else st.frame id := by
  by_cases h : id = s.frame
  · subst h
    by_cases hs : s.frame < st.frames.size <;>
      simp [clear, frame, Array.getElem_modify, hs]
  · simp [clear, frame, Array.getElem?_modify, h, Ne.symm h]

/-! ### What a look-up finds -/

/-- A look-up sees **only the frames it walks through**. -/
theorem find?_congr {st st' : Store} {name : String} {ids : List FrameId}
    (h : ∀ id ∈ ids, st'.frame id = st.frame id) : st'.find? name ids = st.find? name ids := by
  induction ids with
  | nil => rfl
  | cons id outer ih =>
    rw [find?, find?, h id (by simp), ih fun i hi => h i (List.mem_cons_of_mem id hi)]

/-- What a look-up finds is **what a frame binds that has been made**, in the scope that begins with
this frame. -/
theorem exists_binding_of_find? {st : Store} {name : String} {v : Value} {ids : List FrameId}
    (h : st.find? name ids = some v) :
    ∃ id outer b, id :: outer <:+ ids ∧ id < st.frames.size ∧ (name, b) ∈ st.frame id ∧
      v = b.resolve ⟨id, outer⟩ := by
  induction ids with
  | nil => cases h
  | cons id outer ih =>
    rw [find?] at h
    split at h
    · next b hb =>
      have hmem := Frame.mem_of_find? hb
      exact ⟨id, outer, b, List.suffix_refl _, lt_size_of_mem hmem, hmem,
        (Option.some.inj h).symm⟩
    · obtain ⟨i, rest, b, hsuffix, hfound⟩ := ih h
      exact ⟨i, rest, b, hsuffix.trans (List.suffix_cons id outer), hfound⟩

/-- A name just bound is found with **the value it was bound to**, as the frame keeps it. -/
theorem get?_define_self {st : Store} {s : Scope} {name : String} {v : Value}
    (h : s.frame < st.frames.size) :
    (st.define s name v).get? s name = some ((Binding.of s.frame v).resolve s) := by
  rw [get?, Scope.chain, find?, frame_define_self h, Frame.find?_insert, if_pos rfl]

/-- A scope just opened **finds what the scope around it finds**. -/
theorem get?_enclose (st : Store) (s : Scope) (name : String) :
    (st.enclose s).2.get? (st.enclose s).1 name = st.get? s name := by
  rw [get?, Scope.chain, find?, frame_enclose, frame_enclose_scope,
    frame_of_size_le (Nat.le_refl _)]
  exact find?_congr fun id _ => frame_enclose st s id

/-! ### Names in sight -/

/-- Puts a name into a list in **ascending order**, unless it is there already. -/
def insertName (name : String) : List String → List String
  | [] => [name]
  | n :: rest =>
    if name < n then name :: n :: rest
    else if name = n then n :: rest
    else n :: insertName name rest

/-- The given names in **ascending order**, each once. -/
def sortNames (names : List String) : List String :=
  names.foldr insertName []

/-- The names that can be **seen from a scope**, in ascending order. -/
def names (st : Store) (s : Scope) : List String :=
  sortNames (s.chain.flatMap fun id => (st.frame id).map Prod.fst)

theorem mem_insertName {name other : String} {names : List String} :
    other ∈ insertName name names ↔ other = name ∨ other ∈ names := by
  induction names with
  | nil => simp [insertName]
  | cons n rest ih =>
    rw [insertName]
    split
    · exact List.mem_cons
    · split
      · next hn => simp [hn]
      · rw [List.mem_cons, ih, List.mem_cons, or_left_comm]

theorem mem_sortNames {name : String} {names : List String} :
    name ∈ sortNames names ↔ name ∈ names := by
  induction names with
  | nil => rfl
  | cons n rest ih => rw [sortNames, List.foldr_cons, mem_insertName, ← sortNames, ih, List.mem_cons]

theorem isSome_find?_iff {st : Store} {name : String} {ids : List FrameId} :
    (st.find? name ids).isSome ↔ ∃ id ∈ ids, name ∈ (st.frame id).map Prod.fst := by
  induction ids with
  | nil => simp [find?]
  | cons id outer ih =>
    simp only [List.mem_cons, exists_eq_or_imp]
    rw [← ih, ← Frame.isSome_find?_iff, find?]
    cases (st.frame id).find? name <;> simp

/-- The names seen are **those that a look-up finds**. -/
theorem mem_names {st : Store} {s : Scope} {name : String} :
    name ∈ st.names s ↔ (st.get? s name).isSome := by
  rw [names, mem_sortNames, List.mem_flatMap, get?, isSome_find?_iff]

end Store

end ScopeScript
