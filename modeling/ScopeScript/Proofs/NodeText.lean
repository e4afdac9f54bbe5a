import ScopeScript.Program.Reading
import ScopeScript.Proofs.Nodes
import ScopeScript.Proofs.ParserComplete

/-!
# The text of a node

**A span denotes exactly the text of its node.** The text from the first byte of the span to the
last is cut out of the source between characters, and when it is read alone, as a node of the same
sort, all of it is read and the node comes out, with its places counted from the beginning of the
text (`ScopeScript.node_text_reads_back`). The spans of the nodes right below it lie inside, one
behind the other.

The tokens of the text are those that spell the node in the program, moved to the front
(`ScopeScript.Scanned.drop`, `ScopeScript.Scanned.take`, `ScopeScript.Scanned.back`); so the tree
that is read from them is the node moved to the front, and moved forth again it is the node.
-/

namespace ScopeScript

/-! ### Reading a node alone -/

namespace Node

/-- The same node with **its spans and those of the nodes below it** changed. -/
def mapSpan (f : Span → Span) : Node → Node
  | expr e => expr (e.mapSpan f)
  | stmt s => stmt (s.mapSpan f)
  | block b => block (b.mapSpan f)

/-- The reader of **nodes of the same sort**, with all levels of nesting left. -/
def reader : Node → Parser Node
  | expr _ => do return expr (← Parser.expression nestingLimit)
  | stmt _ => do return stmt (← Parser.statement nestingLimit)
  | block _ => do return block (← Parser.block nestingLimit)

theorem reader_mapSpan (f : Span → Span) (node : Node) : (node.mapSpan f).reader = node.reader := by
  cases node <;> rfl

theorem phrase_mapSpan (f : Span → Span) (node : Node) :
    (node.mapSpan f).phrase = node.phrase.mapSpan f := by
  cases node <;> rfl

/-- **The text gives the node back.** It is cut into tokens up to the mark of its end, and no
semicolon is the last of them; the reader for nodes of the sort takes all the tokens, and what it
makes of them is the node, but that all its places are counted from the beginning of the text. -/
def ReadsBack (node : Node) (text : String) : Prop :=
  ∃ tokens last read, tokenize text = .ok (tokens ++ [last]) ∧ last.kind = .endOfInput ∧
    (∀ t ∈ tokens.getLast?, t.kind ≠ .mark .semicolon) ∧
    node.reader (tokens ++ [last]) = (.ok read, [last]) ∧
    read.mapSpan (Span.forth node.span.start) = node

end Node

/-- The span **cuts the text out** of the source. -/
def Span.Cuts (s : Span) (source text : String) : Prop :=
  ∃ before after : String, source = before ++ text ++ after ∧
    s = ⟨before.utf8ByteSize, before.utf8ByteSize + text.utf8ByteSize⟩

namespace Node.Spelled

variable {node node' : Node} {tokens : List Token}

/-- A node is still spelled **where the input ends** behind it. -/
theorem derives (h : node.Spelled tokens) (span : Span) :
    Derives nestingLimit node.phrase (tokens ++ [⟨.endOfInput, span⟩]) [⟨.endOfInput, span⟩] := by
  obtain ⟨taken, heq, hmoved⟩ := h.movable
  rw [List.append_nil] at heq
  rw [heq]
  exact hmoved nestingLimit _ (Nat.le_refl _) fun _ => .atEnd

/-- A node is read **from its tokens**, up to the end of the input. -/
theorem reader_eq (h : node.Spelled tokens) (span : Span) :
    node.reader (tokens ++ [⟨.endOfInput, span⟩]) = (.ok node, [⟨.endOfInput, span⟩]) := by
  have hnext {kind : Token.Kind} (hkind : kind ≠ .endOfInput) :
      ¬ Parser.NextIs kind [⟨.endOfInput, span⟩] := by
    rintro ⟨_, _, ⟨⟩⟩
    exact hkind rfl
  cases node with
  | expr e => exact Parser.bind_apply_of_ok (h.derives span).read _
  | stmt s =>
    have hread := (h.derives span).plain.read
    exact Parser.bind_apply_of_ok (hread ⟨hnext nofun, hnext nofun⟩ (hnext nofun)) _
  | block b => exact Parser.bind_apply_of_ok (h.derives span).read _

/-- The tokens spell **no other node** of the sort. -/
theorem eq_of_reader (h : node.Spelled tokens) (h' : node'.Spelled tokens)
    (hreader : node.reader = node'.reader) : node = node' := by
  have hread := h.reader_eq .none
  rw [hreader, h'.reader_eq .none] at hread
  exact (Except.ok.inj (Prod.mk.inj hread).1).symm

/-- Moved tokens spell the **moved node**. -/
theorem mapSpan {f : Span → Span} (hf : Merges f) (h : node.Spelled tokens) :
    (node.mapSpan f).Spelled (tokens.map (Token.mapSpan f)) := by
  rw [Node.Spelled, Node.phrase_mapSpan]
  exact Derives.mapSpan hf h

/-- A node that is moved back and forth **comes to its place again**. -/
theorem forth_back {a : Nat} (h : node.Spelled tokens)
    (ha : ∀ t ∈ tokens, a ≤ t.span.start ∧ a ≤ t.span.stop) :
    (node.mapSpan (Span.back a)).mapSpan (Span.forth a) = node := by
  have htokens : (tokens.map (Token.mapSpan (Span.back a))).map (Token.mapSpan (Span.forth a)) =
      tokens := by
    rw [List.map_map]
    refine List.map_congr_left (fun t ht => ?_) |>.trans (List.map_id _)
    obtain ⟨hstart, hstop⟩ := ha t ht
    simp [Token.mapSpan, Span.forth, Span.back, Nat.sub_add_cancel, hstart, hstop]
  have hmoved := (h.mapSpan (Span.merges_back a)).mapSpan (Span.merges_forth a)
  rw [htokens] at hmoved
  exact hmoved.eq_of_reader h (by rw [Node.reader_mapSpan, Node.reader_mapSpan])

end Node.Spelled

/-! ### The text that a span cuts out -/

/-- A program that is read from a source **is spelled** by the tokens of the source. -/
theorem Program.exists_scanned {source : String} {p : Program}
    (hp : Program.ofSource source = .ok p) :
    ∃ body stop, Scanned 0 source.toList (body ++ [⟨.endOfInput, ⟨stop, stop⟩⟩]) ∧
      Derives nestingLimit (.statements p.statements) (body ++ [⟨.endOfInput, ⟨stop, stop⟩⟩])
        [⟨.endOfInput, ⟨stop, stop⟩⟩] := by
  rw [Program.ofSource] at hp
  split at hp
  · cases hp
  next tokens htokens =>
    split at hp
    · cases hp
    next q hq =>
      cases hp
      have hscanned := tokensFrom_eq_ok_iff.mp htokens
      obtain ⟨body, stop, rfl, hbody⟩ := hscanned.exists_body
      obtain ⟨span, hspelled⟩ := Program.spelled_of_parse hbody hq
      -- the mark that is left is the last token
      obtain ⟨taken, heq, -⟩ := hspelled.takes
      rw [← List.append_inj_right' heq rfl] at hspelled
      exact ⟨body, stop, hscanned, hspelled⟩

/-- **The tokens that a span covers are those of its text**, moved to their place. -/
theorem Scanned.exists_text {cs : List Char} {before part after : List Token} {s : Span}
    (h : Scanned 0 cs (before ++ part ++ after)) (hafter : after ≠ []) (hs : Covers part s) :
    ∃ front text back, cs = front ++ text ++ back ∧
      s = ⟨byteLength front, byteLength front + byteLength text⟩ ∧
      Scanned 0 text (part.map (Token.mapSpan (Span.back s.start)) ++
        [⟨.endOfInput, ⟨byteLength text, byteLength text⟩⟩]) := by
  obtain ⟨⟨t, ht, hstart⟩, u, hu, hstop, -⟩ := hs
  obtain ⟨later, rfl⟩ := List.head?_eq_some_iff.mp ht
  obtain ⟨earlier, hearlier⟩ := List.getLast?_eq_some_iff.mp hu
  obtain ⟨v, more, rfl⟩ := List.exists_cons_of_ne_nil hafter
  -- what stands before the first token is cut away, and then what stands behind the last
  rw [List.append_assoc] at h
  obtain ⟨front, rest, rfl, hfront, hrest⟩ := h.drop
  have hpart : Scanned t.span.start rest ((t :: later) ++ v :: more) := hrest
  rw [hearlier, List.append_assoc] at hpart
  obtain ⟨text, back, rfl, htext, hscanned⟩ := hpart.take
  rw [Nat.zero_add] at hfront
  refine ⟨front, text, back, (List.append_assoc ..).symm, ?_, ?_⟩
  · rw [← hfront, ← htext, hstart, hstop]
  · rw [← Nat.zero_add t.span.start] at hscanned
    simpa [hearlier, hstart, htext, Span.back] using hscanned.back

/-- The text of a node **gives the node back**. -/
theorem Node.Spelled.readsBack {node : Node} {part : List Token} {text : List Char} {stop : Nat}
    (h : node.Spelled part) (hpart : Consecutive part)
    (htext : Scanned 0 text (part.map (Token.mapSpan (Span.back node.span.start)) ++
      [⟨.endOfInput, ⟨stop, stop⟩⟩])) :
    node.ReadsBack (String.ofList text) := by
  have hcovers := h.covers hpart
  have hlater : ∀ t ∈ part, node.span.start ≤ t.span.start ∧ node.span.start ≤ t.span.stop :=
    fun t ht => by
      have hstart := (hcovers.around hpart ht).1
      exact ⟨hstart, hstart.trans (hpart.start_le_stop t ht)⟩
  have hread := (h.mapSpan (Span.merges_back node.span.start)).reader_eq ⟨stop, stop⟩
  rw [Node.reader_mapSpan] at hread
  refine ⟨_, _, _, tokenize_ofList_eq_ok_iff.mpr htext, rfl, ?_, hread, h.forth_back hlater⟩
  obtain ⟨-, u, hu, -, hkind⟩ := hcovers
  intro t ht
  rw [List.getLast?_map, Option.mem_def.mp hu] at ht
  obtain rfl := Option.some.inj ht
  exact hkind

/-- **Spans denote exactly the text of their nodes.** Of every node of a program that is read from a
source, the span is not empty and cuts a text out of the source; the spans of the nodes right below
it lie inside it, in their order and apart from one another; and the text alone gives the node
back. -/
theorem node_text_reads_back {source : String} {p : Program} (hp : Program.ofSource source = .ok p)
    {node : Node} (hnode : p.Has node) :
    node.span.start < node.span.stop ∧ node.span.stop ≤ source.utf8ByteSize ∧
      (∀ child ∈ node.children,
        node.span.start ≤ child.span.start ∧ child.span.stop ≤ node.span.stop) ∧
      node.children.Pairwise (fun a b => a.span.stop ≤ b.span.start) ∧
      ∃ text, node.span.Cuts source text ∧ node.ReadsBack text := by
  obtain ⟨body, stop, hscanned, hspelled⟩ := Program.exists_scanned hp
  obtain ⟨part, ⟨before, after, rfl⟩, hpart⟩ := hnode.spelled hspelled
  have hconsecutive : Consecutive part := by
    refine hscanned.consecutive.1.sublist ?_
    rw [List.append_assoc, List.append_assoc]
    exact (List.sublist_append_left ..).trans (List.sublist_append_right ..)
  have hcovers := hpart.covers hconsecutive
  rw [List.append_assoc] at hscanned
  obtain ⟨front, text, back, hsource, hspan, htext⟩ := hscanned.exists_text (by simp) hcovers
  have hne : text ≠ [] := by
    rintro rfl
    obtain ⟨⟨t, ht, -⟩, -⟩ := hcovers
    obtain ⟨later, rfl⟩ := List.head?_eq_some_iff.mp ht
    have hlength := congrArg List.length htext.eq_of_nil
    simp at hlength
  have hbytes : source.utf8ByteSize = byteLength front + byteLength text + byteLength back := by
    rw [← byteLength_toList, hsource, byteLength_append, byteLength_append]
  have hpos := byteLength_pos hne
  refine ⟨?_, ?_, fun child hchild => ?_, hpart.children.pairwise hconsecutive,
    String.ofList text, ⟨String.ofList front, String.ofList back, ?_, ?_⟩,
    hpart.readsBack hconsecutive htext⟩
  · rw [hspan]
    exact Nat.lt_add_of_pos_right hpos
  · rw [hspan, hbytes]
    exact Nat.le_add_right ..
  · obtain ⟨part', hpart', hchild'⟩ := hpart.children.exists_infix hchild
    exact hcovers.inside hconsecutive hpart' (hchild'.covers (hconsecutive.sublist hpart'.sublist))
  · rw [← String.ofList_append, ← String.ofList_append, ← hsource, String.ofList_toList]
  · rw [hspan, ← byteLength_toList, ← byteLength_toList, String.toList_ofList, String.toList_ofList]

/-- A call of a procedure in parentheses: its text begins with the parenthesis, and ends before the
semicolon. -/
theorem node_text_reads_back_call :
    Program.ofSource "return (f)(x);" = .ok
      ⟨[.exit (.call (.name "f" ⟨7, 10⟩) [.name "x" ⟨11, 12⟩] ⟨7, 13⟩) ⟨0, 13⟩]⟩ ∧
    ∃ text, Span.Cuts ⟨7, 13⟩ "return (f)(x);" text ∧
      Node.ReadsBack (.expr (.call (.name "f" ⟨7, 10⟩) [.name "x" ⟨11, 12⟩] ⟨7, 13⟩)) text := by
  obtain ⟨tokens, hscanned, rfl⟩ : ∃ tokens,
      Scanned 0 ['r', 'e', 't', 'u', 'r', 'n', ' ', '(', 'f', ')', '(', 'x', ')', ';'] tokens ∧
      tokens = [⟨.keyword .returnK, ⟨0, 6⟩⟩, ⟨.mark .leftParen, ⟨7, 8⟩⟩, ⟨.identifier "f", ⟨8, 9⟩⟩,
        ⟨.mark .rightParen, ⟨9, 10⟩⟩, ⟨.mark .leftParen, ⟨10, 11⟩⟩, ⟨.identifier "x", ⟨11, 12⟩⟩,
        ⟨.mark .rightParen, ⟨12, 13⟩⟩, ⟨.mark .semicolon, ⟨13, 14⟩⟩, ⟨.endOfInput, ⟨14, 14⟩⟩] :=
    ⟨_, .token rfl <| .blank rfl <| .token rfl <| .token rfl <| .token rfl <| .token rfl <|
      .token rfl <| .token rfl <| .token rfl .nil, rfl⟩
  have htokens : tokenize "return (f)(x);" = _ := tokenize_ofList_eq_ok_iff.mpr hscanned
  have hp : Program.ofSource "return (f)(x);" = .ok
      ⟨[.exit (.call (.name "f" ⟨7, 10⟩) [.name "x" ⟨11, 12⟩] ⟨7, 13⟩) ⟨0, 13⟩]⟩ := by
    rw [Program.ofSource, htokens]
    rfl
  exact ⟨hp, (node_text_reads_back hp (.child (.statement (.head _)) (.head _))).2.2.2.2⟩

end ScopeScript
