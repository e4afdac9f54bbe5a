import Mathlib.Data.Set.Defs
import Mathlib.Logic.Function.Basic
import ScopeScript.Interpreter

/-!
# Frames as plain maps

A frame keeps a closure over the frame itself as a bare declaration, and each look-up puts the
closure together again. From outside this is not seen: frames behave like **plain maps**, which keep
every value as it is (`ScopeScript.PlainMaps`).

Whoever works with environments opens scopes, binds names to values, empties frames and looks names
up, and may bind the values found to other names, in the same frame or in others. What there is to
do is a list of commands (`ScopeScript.Environments.Command`), and any sort of environments answers
them (`ScopeScript.Environments.answers`). The frames of a store and plain maps **give the same
answers to all commands** (`ScopeScript.kept_answers_eq_plain`).

The two are compared command by command. What carries the comparison is that there is one scope for
each frame: so a closure that is put together where it is found has the scope in which it was
declared (`ScopeScript.Binding.resolve_of_held`).
-/

namespace ScopeScript

/-! ### Environments -/

/-- **Environments** whose frames are kept in a state of some sort: what can be done with them. -/
structure Environments (σ : Type) where
  /-- There are no frames. -/
  empty : σ
  /-- Opens a scope with no frames around it. -/
  root : σ → Scope × σ
  /-- Opens a scope inside the given one. -/
  enclose : σ → Scope → Scope × σ
  /-- Binds a name in the innermost frame of a scope. -/
  define : σ → Scope → String → Value → σ
  /-- Empties the innermost frame of a scope. -/
  clear : σ → Scope → σ
  /-- The value of a name that is used at the given place. -/
  get : σ → Scope → String → Span → Except RuntimeError Value
  /-- The names that can be seen from a scope. -/
  names : σ → Scope → Set String

/-- The value of a name, or the error that **no frame in sight binds it**. -/
def found (value : Option Value) (name : String) (span : Span) : Except RuntimeError Value :=
  value.elim (.error (.unknownName name span)) .ok

/-- Environments **as stores keep them**. -/
def kept : Environments Store where
  empty := .empty
  root := Store.root
  enclose := Store.enclose
  define := Store.define
  clear := Store.clear
  get st s name span := found (st.get? s name) name span
  names st s := {name | name ∈ st.names s}

/-- **Plain maps**: one for each frame that has been made, with values as they are. -/
structure PlainMaps where
  /-- The number of frames that have been made. -/
  made : Nat
  /-- What the frames bind. -/
  bound : FrameId → String → Option Value

namespace PlainMaps

/-- A new scope with the given frames around it; its own frame binds nothing. -/
def opened (m : PlainMaps) (outer : List FrameId) : Scope × PlainMaps :=
  (⟨m.made, outer⟩, ⟨m.made + 1, Function.update m.bound m.made fun _ => none⟩)

/-- Binds a name in the innermost frame of a scope. -/
def define (m : PlainMaps) (s : Scope) (name : String) (v : Value) : PlainMaps :=
  { m with
    bound := Function.update m.bound s.frame (Function.update (m.bound s.frame) name (some v)) }

/-- Empties the innermost frame of a scope. -/
def clear (m : PlainMaps) (s : Scope) : PlainMaps :=
  { m with bound := Function.update m.bound s.frame fun _ => none }

/-- What the **innermost frame that binds the name** binds it to. -/
def get? (m : PlainMaps) (s : Scope) (name : String) : Option Value :=
  s.chain.findSome? fun id => m.bound id name

end PlainMaps

/-- Environments **as plain maps**: a name is seen if it can be looked up. -/
def plain : Environments PlainMaps where
  empty := ⟨0, fun _ _ => none⟩
  root m := m.opened []
  enclose m s := m.opened s.chain
  define := PlainMaps.define
  clear := PlainMaps.clear
  get m s name span := found (m.get? s name) name span
  names m s := {name | (m.get? s name).isSome}

/-! ### What is done with environments -/

/-- A value, **as a client gives it**. Scopes and values are numbered in the order in which the
client has come by them. -/
inductive Given where
  /-- A number, a string or a truth value. -/
  | literal (l : Literal)
  /-- The null. -/
  | null
  /-- The builtin procedure. -/
  | builtin
  /-- A closure over one of the scopes. -/
  | closure (text : Nat) (decl : FunctionDecl) (scope : Nat)
  /-- A value that has been looked up before. -/
  | earlier (value : Nat)

/-- What a client can **ask for**. -/
inductive Environments.Command where
  /-- A new scope with no frames around it. -/
  | root
  /-- A new scope with no frames around it, in which the builtin procedure has its name. -/
  | globals
  /-- A new scope inside another. -/
  | enclose (scope : Nat)
  /-- A name is bound to a value. -/
  | define (scope : Nat) (name : String) (given : Given)
  /-- A frame is emptied. -/
  | clear (scope : Nat)
  /-- A name is looked up. -/
  | get (scope : Nat) (name : String) (span : Span)
  /-- The names in sight are listed. -/
  | names (scope : Nat)

/-- What a client **is told**. -/
inductive Answer where
  /-- The scope is open. -/
  | opened (s : Scope)
  /-- The frame has been changed. -/
  | done
  /-- What the look-up has come to. -/
  | found (result : Except RuntimeError Value)
  /-- The names in sight. -/
  | seen (names : Set String)
  /-- There is no scope or no value of a number that the command names. -/
  | meaningless

/-- A **client**: the frames, and the scopes and the values that it has come by. -/
structure Client (σ : Type) where
  /-- All frames with what they bind. -/
  state : σ
  /-- The scopes that have been opened. -/
  scopes : List Scope
  /-- The values that have been looked up. -/
  values : List Value

namespace Client

variable {σ : Type}

/-- The value given. -/
def value? (c : Client σ) : Given → Option Value
  | .literal l => some l.value
  | .null => some .null
  | .builtin => some .builtin
  | .closure text decl k => c.scopes[k]?.map fun s => .closure ⟨text, decl, s⟩
  | .earlier k => c.values[k]?

/-- A scope has been opened. -/
def receive (c : Client σ) (opened : Scope × σ) : Answer × Client σ :=
  (.opened opened.1, { c with state := opened.2, scopes := c.scopes ++ [opened.1] })

/-- What is done **in one of the scopes**. -/
def within (c : Client σ) (k : Nat) (act : Scope → Answer × Client σ) : Answer × Client σ :=
  c.scopes[k]?.elim (.meaningless, c) act

end Client

namespace Environments

variable {σ : Type} (E : Environments σ)

/-- What **comes of a command**: the answer, and the client after it. -/
def obey (c : Client σ) : Environments.Command → Answer × Client σ
  | .root => c.receive (E.root c.state)
  | .globals =>
    let (s, st) := E.root c.state
    c.receive (s, E.define st s Keyword.print.spelling .builtin)
  | .enclose k => c.within k fun s => c.receive (E.enclose c.state s)
  | .define k name given => c.within k fun s =>
    (c.value? given).elim (.meaningless, c) fun v =>
      (.done, { c with state := E.define c.state s name v })
  | .clear k => c.within k fun s => (.done, { c with state := E.clear c.state s })
  | .get k name span => c.within k fun s =>
    let result := E.get c.state s name span
    (.found result, { c with values := c.values ++ result.toOption.toList })
  | .names k => c.within k fun s => (.seen (E.names c.state s), c)

/-- The answers to commands given **one after another**. -/
def answersTo (c : Client σ) : List Environments.Command → List Answer
  | [] => []
  | command :: commands => (E.obey c command).1 :: answersTo (E.obey c command).2 commands

/-- The answers to commands **where there are no frames yet**. -/
def answers (commands : List Environments.Command) : List Answer :=
  E.answersTo ⟨E.empty, [], []⟩ commands

end Environments

/-! ### One scope for each frame -/

/-- The scope and those around it **are the ones held** for their frames. -/
def Scope.HeldIn (scopes : List Scope) (s : Scope) : Prop :=
  ∀ id outer, id :: outer <:+ s.chain → scopes[id]? = some ⟨id, outer⟩

/-- If the value is a closure, its scope is held. -/
def Value.HeldIn (scopes : List Scope) (v : Value) : Prop :=
  ∀ c, v = .closure c → c.scope.HeldIn scopes

section Held

variable {scopes : List Scope} {s t : Scope}

theorem Scope.HeldIn.getElem? (h : s.HeldIn scopes) : scopes[s.frame]? = some s :=
  h s.frame s.outer (List.suffix_refl _)

theorem Scope.HeldIn.mem (h : s.HeldIn scopes) : s ∈ scopes :=
  List.mem_of_getElem? h.getElem?

theorem Scope.HeldIn.frame_lt (h : s.HeldIn scopes) : s.frame < scopes.length :=
  (List.getElem?_eq_some_iff.mp h.getElem?).1

/-- There is **one scope** for a frame. -/
theorem Scope.HeldIn.eq_of_frame_eq (hs : s.HeldIn scopes) (ht : t.HeldIn scopes)
    (h : s.frame = t.frame) : s = t :=
  Option.some.inj (hs.getElem?.symm.trans (h ▸ ht.getElem?))

theorem Scope.HeldIn.append (h : s.HeldIn scopes) (more : List Scope) :
    s.HeldIn (scopes ++ more) := fun id outer hsuffix => by
  have hheld := h id outer hsuffix
  rwa [List.getElem?_append_left (List.getElem?_eq_some_iff.mp hheld).1]

theorem Value.HeldIn.append {v : Value} (h : v.HeldIn scopes) (more : List Scope) :
    v.HeldIn (scopes ++ more) := fun c hc =>
  (h c hc).append more

theorem Value.heldIn_of_ne {v : Value} (h : ∀ c, v ≠ .closure c) : v.HeldIn scopes :=
  fun c hc => absurd hc (h c)

/-- **What a frame keeps of a value is the value**, when it is found in the scope of the frame. -/
theorem Binding.resolve_of_held {v : Value} (hs : s.HeldIn scopes) (hv : v.HeldIn scopes) :
    (Binding.of s.frame v).resolve s = v := by
  cases v with
  | closure c =>
    rw [Binding.of]
    split
    · next hframe =>
      obtain rfl := (hv c rfl).eq_of_frame_eq hs hframe
      rfl
    · rfl
  | _ => rfl

end Held

/-! ### Stores beside plain maps -/

/-- The store **keeps what the plain maps bind**; the scopes are those of all frames, in order. -/
structure Store.Keeps (scopes : List Scope) (st : Store) (m : PlainMaps) : Prop where
  /-- There is a scope for each frame of the store. -/
  size_eq : st.frames.size = scopes.length
  /-- There is a map for each of them. -/
  made_eq : m.made = scopes.length
  /-- The scopes around a scope are held as well. -/
  held : ∀ s ∈ scopes, s.HeldIn scopes
  /-- The maps bind what look-ups find in the frames. -/
  bound_eq : ∀ s ∈ scopes, ∀ name,
    m.bound s.frame name = ((st.frame s.frame).find? name).map (Binding.resolve s)
  /-- The scopes of closures that are bound are held. -/
  closed : ∀ s ∈ scopes, ∀ name v, m.bound s.frame name = some v → v.HeldIn scopes

namespace Store.Keeps

variable {scopes : List Scope} {st : Store} {m : PlainMaps} {s : Scope}

theorem empty : Store.empty.Keeps [] plain.empty where
  size_eq := rfl
  made_eq := rfl
  held := nofun
  bound_eq := nofun
  closed := nofun

/-- **Look-ups find the same.** -/
theorem get?_eq (h : st.Keeps scopes m) (hs : s.HeldIn scopes) (name : String) :
    st.get? s name = m.get? s name := by
  have hchain : ∀ ids : List FrameId,
      (∀ id outer, id :: outer <:+ ids → scopes[id]? = some ⟨id, outer⟩) →
      st.find? name ids = ids.findSome? fun id => m.bound id name := by
    intro ids hids
    induction ids with
    | nil => rfl
    | cons id outer ih =>
      have hmem : (⟨id, outer⟩ : Scope) ∈ scopes :=
        List.mem_of_getElem? (hids id outer (List.suffix_refl _))
      rw [find?, List.findSome?_cons, h.bound_eq _ hmem name,
        ih fun i rest hsuffix => hids i rest (hsuffix.trans (List.suffix_cons id outer))]
      cases (st.frame id).find? name <;> rfl
  exact hchain s.chain hs

/-- The scope of a closure that is found **is held**. -/
theorem heldIn_of_get? (h : st.Keeps scopes m) (hs : s.HeldIn scopes) {name : String} {v : Value}
    (hv : m.get? s name = some v) : v.HeldIn scopes := by
  obtain ⟨id, hid, hbound⟩ := List.exists_of_findSome?_eq_some hv
  obtain ⟨before, outer, hchain⟩ := List.append_of_mem hid
  have hheld := hs id outer ⟨before, hchain.symm⟩
  exact h.closed ⟨id, outer⟩ (List.mem_of_getElem? hheld) name v hbound

/-- **A scope is opened.** -/
theorem opened (h : st.Keeps scopes m) {outer : List FrameId}
    (houter : ∀ id rest, id :: rest <:+ outer → scopes[id]? = some ⟨id, rest⟩) :
    Store.Keeps (scopes ++ [⟨st.frames.size, outer⟩]) ⟨st.frames.push []⟩ (m.opened outer).2 := by
  have hframe : ∀ id, Store.frame ⟨st.frames.push []⟩ id = st.frame id := st.frame_root
  have hnew : Scope.HeldIn (scopes ++ [⟨st.frames.size, outer⟩]) ⟨st.frames.size, outer⟩ := by
    intro id rest hsuffix
    rcases List.suffix_cons_iff.mp hsuffix with heq | hsuffix
    · obtain ⟨rfl, rfl⟩ := List.cons.inj heq
      rw [h.size_eq, List.getElem?_concat_length]
    · have hheld := houter id rest hsuffix
      rwa [List.getElem?_append_left (List.getElem?_eq_some_iff.mp hheld).1]
  -- the frames that there were are other frames than the new one
  have hold : ∀ s ∈ scopes, (m.opened outer).2.bound s.frame = m.bound s.frame := by
    intro s hs
    refine Function.update_of_ne ?_ _ _
    rw [h.made_eq]
    exact Nat.ne_of_lt (h.held s hs).frame_lt
  have hempty : ∀ name, (m.opened outer).2.bound st.frames.size name = none := by
    intro name
    rw [h.size_eq, ← h.made_eq]
    exact congrFun (Function.update_self m.made (fun _ => none) m.bound) name
  refine ⟨by simp [h.size_eq], ?_, fun s hs => ?_, fun s hs name => ?_, fun s hs name v hv => ?_⟩
  · rw [List.length_append, List.length_singleton, ← h.made_eq]
    rfl
  · rcases List.mem_append.mp hs with hs | hs
    · exact (h.held s hs).append _
    · exact List.mem_singleton.mp hs ▸ hnew
  · rw [hframe]
    rcases List.mem_append.mp hs with hs | hs
    · rw [hold s hs, h.bound_eq s hs]
    · obtain rfl := List.mem_singleton.mp hs
      rw [hempty, frame_of_size_le (Nat.le_refl _)]
      rfl
  · rcases List.mem_append.mp hs with hs | hs
    · rw [hold s hs] at hv
      exact (h.closed s hs name v hv).append _
    · obtain rfl := List.mem_singleton.mp hs
      rw [hempty] at hv
      exact absurd hv nofun

theorem root (h : st.Keeps scopes m) :
    st.root.2.Keeps (scopes ++ [st.root.1]) (m.opened []).2 :=
  h.opened fun _ _ hsuffix => absurd (List.suffix_nil.mp hsuffix) nofun

theorem enclose (h : st.Keeps scopes m) (hs : s.HeldIn scopes) :
    (st.enclose s).2.Keeps (scopes ++ [(st.enclose s).1]) (m.opened s.chain).2 :=
  h.opened hs

/-- **A name is bound.** -/
theorem define (h : st.Keeps scopes m) (hs : s.HeldIn scopes) {v : Value} (hv : v.HeldIn scopes)
    (name : String) : (st.define s name v).Keeps scopes (m.define s name v) := by
  have hlt : s.frame < st.frames.size := h.size_eq ▸ hs.frame_lt
  have hself : ∀ other, (m.define s name v).bound s.frame other =
      if other = name then some v else m.bound s.frame other := by
    intro other
    simp only [PlainMaps.define, Function.update_self, Function.update_apply]
  have hother : ∀ t : Scope, t.frame ≠ s.frame →
      (m.define s name v).bound t.frame = m.bound t.frame := fun t hne =>
    Function.update_of_ne hne _ _
  refine ⟨by simpa using h.size_eq, h.made_eq, h.held, fun t ht other => ?_,
    fun t ht other w hw => ?_⟩
  · by_cases hframe : t.frame = s.frame
    · obtain rfl := (h.held t ht).eq_of_frame_eq hs hframe
      rw [hself, frame_define_self hlt, Frame.find?_insert]
      by_cases hname : other = name
      · rw [if_pos hname, if_pos hname.symm, Option.map_some, Binding.resolve_of_held hs hv]
      · rw [if_neg hname, if_neg (Ne.symm hname), h.bound_eq t ht]
    · rw [hother t hframe, frame_define_of_ne hframe, h.bound_eq t ht]
  · by_cases hframe : t.frame = s.frame
    · rw [hframe, hself] at hw
      split at hw
      · exact Option.some.inj hw ▸ hv
      · exact h.closed s hs.mem other w hw
    · rw [hother t hframe] at hw
      exact h.closed t ht other w hw

/-- **A frame is emptied.** -/
theorem clear (h : st.Keeps scopes m) (s : Scope) : (st.clear s).Keeps scopes (m.clear s) := by
  have hbound : ∀ t : Scope, (m.clear s).bound t.frame =
      if t.frame = s.frame then fun _ => none else m.bound t.frame := fun t =>
    Function.update_apply ..
  refine ⟨by simpa using h.size_eq, h.made_eq, h.held, fun t ht name => ?_,
    fun t ht name v hv => ?_⟩
  · rw [hbound, frame_clear]
    split
    · rfl
    · exact h.bound_eq t ht name
  · rw [hbound] at hv
    split at hv
    · exact absurd hv nofun
    · exact h.closed t ht name v hv

end Store.Keeps

/-! ### The same answers -/

/-- Two clients **have come by the same**, and the store of one keeps what the plain maps of the other
bind. -/
structure Client.Agrees (c : Client Store) (d : Client PlainMaps) : Prop where
  /-- The scopes are the same. -/
  scopes_eq : c.scopes = d.scopes
  /-- The values are the same. -/
  values_eq : c.values = d.values
  /-- The store keeps what the maps bind. -/
  keeps : c.state.Keeps c.scopes d.state
  /-- The scopes of closures that have been looked up are held. -/
  held : ∀ v ∈ c.values, v.HeldIn c.scopes

namespace Client.Agrees

variable {c : Client Store} {d : Client PlainMaps}

/-- The same value is given, and **its scope is held**. -/
theorem value? (h : c.Agrees d) (given : Given) :
    c.value? given = d.value? given ∧ ∀ v, c.value? given = some v → v.HeldIn c.scopes := by
  cases given with
  | literal l =>
    refine ⟨rfl, ?_⟩
    rintro _ ⟨⟩
    exact Value.heldIn_of_ne fun c => by cases l <;> nofun
  | null | builtin =>
    refine ⟨rfl, ?_⟩
    rintro _ ⟨⟩ c hc
    exact nomatch hc
  | closure text decl k =>
    refine ⟨by rw [Client.value?, Client.value?, h.scopes_eq], fun v hv => ?_⟩
    obtain ⟨s, hs, rfl⟩ := Option.map_eq_some_iff.mp hv
    rintro _ ⟨⟩
    exact h.keeps.held s (List.mem_of_getElem? hs)
  | earlier k =>
    refine ⟨by rw [Client.value?, Client.value?, h.values_eq], fun v hv => ?_⟩
    exact h.held v (List.mem_of_getElem? hv)

/-- **A scope is opened** for both clients. -/
theorem receive (h : c.Agrees d) {o : Scope × Store} {o' : Scope × PlainMaps} (hscope : o.1 = o'.1)
    (hkeeps : o.2.Keeps (c.scopes ++ [o.1]) o'.2) :
    (c.receive o).1 = (d.receive o').1 ∧ (c.receive o).2.Agrees (d.receive o').2 := by
  refine ⟨congrArg Answer.opened hscope, ?_, h.values_eq, hkeeps, fun v hv => ?_⟩
  · exact congr (congrArg HAppend.hAppend h.scopes_eq) (congrArg List.singleton hscope)
  · exact (h.held v hv).append _

theorem within (h : c.Agrees d) (k : Nat) {act : Scope → Answer × Client Store}
    {act' : Scope → Answer × Client PlainMaps}
    (hact : ∀ s, s.HeldIn c.scopes → (act s).1 = (act' s).1 ∧ (act s).2.Agrees (act' s).2) :
    (c.within k act).1 = (d.within k act').1 ∧ (c.within k act).2.Agrees (d.within k act').2 := by
  rw [Client.within, Client.within, ← h.scopes_eq]
  cases hs : c.scopes[k]? with
  | none => exact ⟨rfl, h⟩
  | some s => exact hact s (h.keeps.held s (List.mem_of_getElem? hs))

/-- **A command has the same answer**, and leaves clients that agree. -/
theorem obey (h : c.Agrees d) (command : Environments.Command) :
    (kept.obey c command).1 = (plain.obey d command).1 ∧
      (kept.obey c command).2.Agrees (plain.obey d command).2 := by
  have hframe : c.state.frames.size = d.state.made := h.keeps.size_eq.trans h.keeps.made_eq.symm
  cases command with
  | root => exact h.receive (congrArg (Scope.mk · []) hframe) h.keeps.root
  | globals =>
    have hscope : c.state.root.1 = (d.state.opened []).1 := congrArg (Scope.mk · []) hframe
    have hnew : c.state.root.1.HeldIn (c.scopes ++ [c.state.root.1]) :=
      h.keeps.root.held _ (List.mem_append_right _ (List.mem_singleton_self _))
    have hdefined := h.keeps.root.define hnew (v := .builtin) (fun _ hc => nomatch hc)
      Keyword.print.spelling
    refine h.receive hscope ?_
    change Store.Keeps _ _ ((d.state.opened []).2.define (d.state.opened []).1 _ _)
    rwa [← hscope]
  | enclose k =>
    exact h.within k fun s hs => h.receive (congrArg (Scope.mk · s.chain) hframe) (h.keeps.enclose hs)
  | define k name given =>
    refine h.within k fun s hs => ?_
    obtain ⟨hsame, hheld⟩ := h.value? given
    rw [← hsame]
    cases hv : c.value? given with
    | none => exact ⟨rfl, h⟩
    | some v => exact ⟨rfl, h.scopes_eq, h.values_eq, h.keeps.define hs (hheld v hv) name, h.held⟩
  | clear k =>
    exact h.within k fun s _ => ⟨rfl, h.scopes_eq, h.values_eq, h.keeps.clear s, h.held⟩
  | get k name span =>
    refine h.within k fun s hs => ?_
    have hget : kept.get c.state s name span = plain.get d.state s name span :=
      congrArg (found · name span) (h.keeps.get?_eq hs name)
    refine ⟨congrArg Answer.found hget, h.scopes_eq, ?_, h.keeps, fun v hv => ?_⟩
    · simp only [h.values_eq, hget]
    · rcases List.mem_append.mp hv with hv | hv
      · exact h.held v hv
      · rw [hget] at hv
        cases hfound : d.state.get? s name with
        | none => simp [plain, found, hfound, Except.toOption] at hv
        | some w =>
          obtain rfl : v = w := by simpa [plain, found, hfound, Except.toOption] using hv
          exact h.keeps.heldIn_of_get? hs hfound
  | names k =>
    refine h.within k fun s hs => ⟨congrArg Answer.seen (Set.ext fun name => ?_), h⟩
    change name ∈ c.state.names s ↔ (d.state.get? s name).isSome
    rw [Store.mem_names, h.keeps.get?_eq hs]

/-- **Clients that agree have the same answers** to whatever follows. -/
theorem answersTo_eq (h : c.Agrees d) (commands : List Environments.Command) :
    kept.answersTo c commands = plain.answersTo d commands := by
  induction commands generalizing c d with
  | nil => rfl
  | cons command commands ih =>
    obtain ⟨hanswer, hnext⟩ := h.obey command
    rw [Environments.answersTo, Environments.answersTo, hanswer, ih hnext]

end Client.Agrees

/-- **Frames behave like plain maps.** To any commands, the frames of a store give the answers that
plain maps give: a name is looked up to the value that it was bound to last, in the innermost frame
that binds it, and is listed exactly if it can be looked up.

The look-ups of a run are these look-ups, and the scope in which a run starts is opened by one of
the commands. A closure that is found is the same closure as the one that was bound. -/
theorem kept_answers_eq_plain :
    (∀ commands, kept.answers commands = plain.answers commands) ∧
    (∀ s name span st, Eval.lookup s name span st =
      match kept.get st.store s name span with
      | .ok v => .done v st
      | .error e => .failed e st) ∧
    (kept.obey ⟨kept.empty, [], []⟩ .globals).2.state = State.initial.2.store ∧
    ∀ c, (Value.closure c).equal (.closure c) = true := by
  refine ⟨fun commands => ?_, fun s name span st => ?_, rfl, fun c => ?_⟩
  · have hstart : Client.Agrees ⟨kept.empty, [], []⟩ ⟨plain.empty, [], []⟩ :=
      ⟨rfl, rfl, .empty, nofun⟩
    exact hstart.answersTo_eq commands
  · rw [Eval.lookup]
    change _ = match found (st.store.get? s name) name span with
      | .ok v => Outcome.done v st
      | .error e => .failed e st
    cases st.store.get? s name <;> rfl
  · simp [Value.equal, Closure.same]

end ScopeScript
