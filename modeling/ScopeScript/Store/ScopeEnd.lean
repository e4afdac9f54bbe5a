import ScopeScript.Store

/-!
# Letting go of a scope

When a scope has ended, what it bound can be forgotten **unless the value that leaves it can still
reach it**: the value is a closure, and from the frames of its scope, through the closures bound in
them, one comes to the frame of the ended scope.

The search goes in rounds. A round takes the frames reached in the round before, drops those seen
earlier, and looks one step further from the others. Each round but the last sees a new frame, so
two more rounds than there are frames are enough.

## Main definitions

* `ScopeScript.Store.reaches`: a value can reach a frame.
* `ScopeScript.Store.endScope`: what happens when a scope ends.
-/

namespace ScopeScript

namespace Store

/-- The scopes of the closures that a frame binds. A closure kept without its scope leads
nowhere but to the frame itself. -/
def boundScopes (f : Frame) : List Scope :=
  f.filterMap fun entry =>
    match entry.2 with
    | .value (.closure c) => some c.scope
    | _ => none

/-- The frames that are **one step** from a frame. -/
def next (st : Store) (id : FrameId) : List FrameId :=
  (boundScopes (st.frame id)).flatMap Scope.chain

/-- One step leads **along the closures** that the frame binds. -/
theorem mem_next {st : Store} {id j : FrameId} :
    j ∈ st.next id ↔ ∃ name c, (name, .value (.closure c)) ∈ st.frame id ∧ j ∈ c.scope.chain := by
  rw [next, List.mem_flatMap]
  constructor
  · rintro ⟨s, hs, hj⟩
    obtain ⟨⟨name, b⟩, hmem, hscope⟩ := List.mem_filterMap.mp hs
    split at hscope
    · next c hb =>
      cases hb
      exact ⟨name, c, hmem, Option.some.inj hscope ▸ hj⟩
    · exact absurd hscope nofun
  · rintro ⟨name, c, hmem, hj⟩
    exact ⟨c.scope, List.mem_filterMap.mpr ⟨_, hmem, rfl⟩, hj⟩

/-- Takes note of frames: a set of frames, kept as the bits of a number, grows by them, and those
that were **not in it** are added to a list. -/
def note (seen : Nat) (fresh : List FrameId) : List FrameId → Nat × List FrameId
  | [] => (seen, fresh)
  | id :: ids =>
    if seen.testBit id then note seen fresh ids
    else note (seen ||| 1 <<< id) (id :: fresh) ids

/-- Looks for a frame **round by round**, from the frames reached last. -/
def search (st : Store) (target : FrameId) : Nat → Nat → List FrameId → Bool
  | 0, _, _ => false
  | n + 1, seen, reached =>
    let (seen, fresh) := note seen [] reached
    if fresh.contains target then true
    else if fresh.isEmpty then false
    else search st target n seen (fresh.flatMap st.next)

/-- The value **can reach the frame**. -/
def reaches (st : Store) (v : Value) (target : FrameId) : Bool :=
  match v with
  | .closure c => st.search target (st.frames.size + 2) 0 c.scope.chain
  | _ => false

/-- The scope **has ended**, and `survivor` is the value that leaves it, if any. -/
def endScope (st : Store) (s : Scope) (survivor : Option Value) : Store :=
  if survivor.any fun v => st.reaches v s.frame then st else st.clear s

@[simp] theorem size_endScope (st : Store) (s : Scope) (survivor : Option Value) :
    (st.endScope s survivor).frames.size = st.frames.size := by
  rw [endScope]
  split
  · rfl
  · exact size_clear st s

theorem frame_endScope_of_ne {st : Store} {s : Scope} {survivor : Option Value} {id : FrameId}
    (h : id ≠ s.frame) : (st.endScope s survivor).frame id = st.frame id := by
  rw [endScope]
  split
  · rfl
  · rw [frame_clear, if_neg h]

end Store

end ScopeScript
