import Mathlib.Data.List.Lex
import Mathlib.Data.String.Basic
import ScopeScript.Console.Completion
import ScopeScript.Proofs.JoinedRuns

/-!
# Completions

**What the console offers behind a name are exactly the endings that make it a name in sight or a
keyword**, in ascending order and each once; and behind anything else it offers nothing
(`ScopeScript.complete_exact`). With an ending the text before the cursor has the tokens that it had
before, but for the last, which is the longer word.

The second part needs to know what names there are. Texts bind names that are words, and the name of
the builtin procedure is a word as well, so this is what all frames bind
(`ScopeScript.Interpreter.HasRun.bindsWords`). And a word goes on with the characters of any word
that it begins, while the lexemes before it have ended already and stay what they are
(`ScopeScript.Scanned.longerWord`).
-/

namespace ScopeScript

/-! ### Names that are bound -/

/-- **All names** that the frames bind are as the predicate says. -/
def Store.EachName (P : String → Prop) (st : Store) : Prop :=
  ∀ id, ∀ entry ∈ st.frame id, P entry.1

namespace Store.EachName

variable {P : String → Prop} {st : Store} {name : String}

theorem of_get? (h : st.EachName P) {s : Scope} (hname : (st.get? s name).isSome) : P name := by
  obtain ⟨id, -, hmem⟩ := isSome_find?_iff.mp hname
  obtain ⟨entry, hentry, rfl⟩ := List.mem_map.mp hmem
  exact h id entry hentry

theorem define (h : st.EachName P) (hname : P name) (s : Scope) (v : Value) :
    (st.define s name v).EachName P := by
  intro id entry hentry
  rw [frame_define] at hentry
  split at hentry
  · rcases Frame.mem_insert hentry with rfl | hentry
    · exact hname
    · exact h id entry hentry
  · exact h id entry hentry

theorem enclose (h : st.EachName P) (s : Scope) : (st.enclose s).2.EachName P := by
  intro id entry hentry
  rw [frame_enclose] at hentry
  exact h id entry hentry

theorem clear (h : st.EachName P) (s : Scope) : (st.clear s).EachName P := by
  intro id entry hentry
  rw [frame_clear] at hentry
  split at hentry
  · cases hentry
  · exact h id entry hentry

theorem bindAll (s : Scope) {params : List String} (hparams : ∀ p ∈ params, P p) :
    ∀ {args : List Value} {st : Store}, st.EachName P →
      (st.bindAll s params args).EachName P := by
  induction params with
  | nil => exact fun h => h
  | cons p ps ih =>
    obtain ⟨hp, hps⟩ := List.forall_mem_cons.mp hparams
    intro args st h
    cases args with
    | nil => exact ih hps (h.define hp s _)
    | cons v vs => exact ih hps (h.define hp s v)

end Store.EachName

/-- The text **is a word**: a letter, with letters and digits behind it. -/
def Wordlike (text : String) : Prop :=
  text.toList ∈ Pattern.word.language

theorem IsName.wordlike {name : String} (h : IsName name) : Wordlike name := by
  obtain ⟨w, hw⟩ : ∃ w, w = name.toList := ⟨_, rfl⟩
  rw [IsName, ← hw] at h
  rw [Wordlike, ← hw]
  cases h with
  | name hword => exact hword

theorem Keyword.wordlike (k : Keyword) : Wordlike k.spelling :=
  Pattern.keyword_mem_word k

/-- In code of texts that can be read, **words are bound**. -/
def bindingWords : Regime .same where
  Runs _ node := readable.Has node
  Fits c := c.decl.Readable
  Sound st := st.EachName Wordlike ∧ st.EachClosure fun _ decl => decl.Readable
  operand h hchild := readable.child h hchild
  start h he := Code.start h he
  block h _ hb _ ht := Code.statements (readable.child h hb) _ ht
  test h _ := Code.loopTest h
  body h _ ht := by
    obtain ⟨span, hdecl⟩ := h
    exact Code.statements (readable.child hdecl (List.mem_singleton_self _)) _ ht
  function h := ⟨_, h⟩
  lookup _ hst hc := hst.2.of_get? hc
  define h hname hst hv := by
    obtain ⟨source, p, hp, hs⟩ := h
    have hword := Program.Has.isName hp hs (Stmt.mem_introduces_of_declared hname)
    exact ⟨hst.1.define hword.wordlike _ _, hst.2.define hv _ _⟩
  enclose hst s := ⟨hst.1.enclose s, hst.2.enclose s⟩
  bind h hst hargs := by
    obtain ⟨span, source, p, hp, hs⟩ := h
    refine ⟨.bindAll _ (fun name hname => ?_) (hst.1.enclose _),
      (hst.2.enclose _).bindAll _ _ hargs⟩
    exact (Program.Has.isName hp hs (List.mem_cons_of_mem _ hname)).wordlike
  clear _ hst s := ⟨hst.1.clear _, hst.2.clear _⟩
  apart _ _ htext hspan := ⟨htext, hspan⟩

/-- **Texts bind words only.** -/
theorem Interpreter.HasRun.bindsWords {opts : Options} {it : Interpreter} (h : it.HasRun opts) :
    bindingWords.Sound it.state.store := by
  induction h with
  | new =>
    refine ⟨fun id entry hentry => ?_, Store.EachClosure.empty.root.define nofun _ _⟩
    rw [(Store.Reserves.eq_of_mem_initial hentry).2]
    exact Keyword.wordlike .print
  | @text it it' bounds source r _ hrun ih =>
    rcases Interpreter.runSource_cases hrun with rfl | ⟨p, r, hp, hrun⟩
    · exact ih
    · have hholds : bindingWords.Holds (it.start bounds p) :=
        ⟨fun s hs => ⟨source, p, hp, .statement hs⟩, ih⟩
      exact hholds.run hrun
  | taken _ ih => exact ih

/-! ### Names in order -/

theorem Store.pairwise_insertName {name : String} {names : List String}
    (h : names.Pairwise (· < ·)) : (insertName name names).Pairwise (· < ·) := by
  induction names with
  | nil => exact List.pairwise_singleton ..
  | cons n rest ih =>
    obtain ⟨hn, hrest⟩ := List.pairwise_cons.mp h
    rw [insertName]
    split
    · next hlt => exact .cons (List.forall_mem_cons.mpr ⟨hlt, fun m hm => hlt.trans (hn m hm)⟩) h
    split
    · exact h
    · next hnot hne =>
      refine .cons (fun m hm => ?_) (ih hrest)
      rcases mem_insertName.mp hm with rfl | hm
      · exact lt_of_le_of_ne (not_lt.mp hnot) (Ne.symm hne)
      · exact hn m hm

/-- Names that are put in order stand in **strictly ascending** order. -/
theorem Store.pairwise_sortNames (names : List String) : (sortNames names).Pairwise (· < ·) := by
  induction names with
  | nil => exact .nil
  | cons n rest ih => exact pairwise_insertName ih

namespace Completion

variable {start whole c c' : String} {names : List String}

/-- **What is left of a text** behind its beginning, if something is. -/
theorem ending?_eq_some_iff : ending? start whole = some c ↔ whole = start ++ c ∧ c ≠ "" := by
  rw [ending?]
  constructor
  · intro h
    split at h
    · next hgoes =>
      obtain ⟨⟨more, hmore⟩, hne⟩ := hgoes
      cases h
      rw [← hmore, List.drop_left]
      have hwhole : whole = start ++ String.ofList more := by
        rw [← String.toList_inj, String.toList_append, String.toList_ofList, hmore]
      refine ⟨hwhole, fun hnil => hne ?_⟩
      rw [hwhole, hnil, String.append_empty]
    · cases h
  · rintro ⟨rfl, hne⟩
    have hgoes : start.toList <+: (start ++ c).toList ∧ start ≠ start ++ c := by
      refine ⟨⟨c.toList, String.toList_append.symm⟩, fun heq => hne ?_⟩
      rw [← String.toList_inj, String.toList_append, List.self_eq_append_right] at heq
      exact String.toList_eq_nil_iff.mp heq
    rw [if_pos hgoes, String.toList_append, List.drop_left, String.ofList_toList]

theorem mem_vocabulary {name : String} :
    name ∈ vocabulary names ↔ name ∈ names ∨ ∃ k : Keyword, k.spelling = name := by
  rw [vocabulary, Store.mem_sortNames, List.mem_append, List.mem_map]
  exact or_congr_right ⟨fun ⟨k, _, hk⟩ => ⟨k, hk⟩, fun ⟨k, hk⟩ => ⟨k, k.mem_all, hk⟩⟩

/-- Behind the same beginning, **endings are in the order of the whole**. -/
theorem lt_of_append_lt (h : start ++ c < start ++ c') : c < c' := by
  rw [String.lt_iff_toList_lt] at h ⊢
  rw [String.toList_append, String.toList_append] at h
  by_contra hnot
  rcases (not_lt.mp hnot).lt_or_eq with hlt | heq
  · exact lt_asymm h (List.append_left_lt hlt)
  · exact lt_irrefl _ (heq ▸ h)

/-- **The endings to offer** behind a name. -/
theorem mem_endings {text : String} (h : nameBefore? text = some start) :
    c ∈ endings names text ↔
      c ≠ "" ∧ (start ++ c ∈ names ∨ ∃ k : Keyword, k.spelling = start ++ c) := by
  rw [endings, h, List.mem_filterMap]
  constructor
  · rintro ⟨whole, hmem, hending⟩
    obtain ⟨rfl, hne⟩ := ending?_eq_some_iff.mp hending
    exact ⟨hne, mem_vocabulary.mp hmem⟩
  · rintro ⟨hne, hmem⟩
    exact ⟨_, mem_vocabulary.mpr hmem, ending?_eq_some_iff.mpr ⟨rfl, hne⟩⟩

theorem pairwise_endings (names : List String) (start : String) :
    ((vocabulary names).filterMap (ending? start)).Pairwise (· < ·) := by
  refine (Store.pairwise_sortNames _).filterMap _ fun n m hnm c hc c' hc' => ?_
  obtain ⟨rfl, -⟩ := ending?_eq_some_iff.mp hc
  obtain ⟨rfl, -⟩ := ending?_eq_some_iff.mp hc'
  exact lt_of_append_lt hnm

end Completion

/-! ### Texts that go on -/

namespace Lexeme

variable {c : Char} {cs text rest : List Char} {lexeme : Lexeme}

/-- Where the characters of a class end **before the end of the text**, they end there if the text
goes on. -/
theorem run_append {p : Char → Bool} {make : List Char → Lexeme}
    (h : run p c cs make = ⟨lexeme, text, rest⟩) (hrest : rest ≠ []) (post : List Char) :
    run p c (cs ++ post) make = ⟨lexeme, text, rest ++ post⟩ := by
  simp only [run, Cut.mk.injEq] at h ⊢
  obtain ⟨rfl, rfl, rfl⟩ := h
  have hshort : (cs.takeWhile p).length ≠ cs.length := fun hlength =>
    hrest (List.eq_nil_of_length_eq_zero (by
      have hparts := congrArg List.length (@List.takeWhile_append_dropWhile _ p cs)
      rw [List.length_append] at hparts
      omega))
  rw [List.takeWhile_append, if_neg hshort, List.dropWhile_append,
    if_neg (mt List.isEmpty_iff.mp hrest)]
  exact ⟨rfl, rfl, rfl⟩

/-- **A sign has two characters at most**, so that of a text with as many is settled. -/
theorem signCut_append (h : signCut c cs = ⟨lexeme, text, rest⟩) (hcs : cs ≠ [])
    (post : List Char) : signCut c (cs ++ post) = ⟨lexeme, text, rest ++ post⟩ := by
  have hlengths : ∀ s ∈ signs, s.1.length ≤ 2 := by decide
  have hlength : 2 ≤ (c :: cs).length := Nat.succ_le_succ (List.length_pos_iff.mpr hcs)
  have hfind : signs.find? (fun s => s.1.isPrefixOf (c :: (cs ++ post))) =
      signs.find? fun s => s.1.isPrefixOf (c :: cs) := by
    refine List.find?_congr fun s hs => Bool.eq_iff_iff.mpr ?_
    rw [List.isPrefixOf_iff_prefix, List.isPrefixOf_iff_prefix, ← List.cons_append]
    have hfront : c :: cs <+: c :: cs ++ post := List.prefix_append ..
    exact ⟨fun hprefix => List.prefix_of_prefix_length_le hprefix hfront
      ((hlengths s hs).trans hlength), fun hprefix => hprefix.trans hfront⟩
  rw [signCut, hfind]
  rw [signCut] at h
  cases hsign : signs.find? fun s => s.1.isPrefixOf (c :: cs) with
  | some found =>
    obtain ⟨sign, kind⟩ := found
    have hprefix : sign <+: c :: cs := by simpa using List.find?_some hsign
    rw [hsign] at h
    cases h
    simp only [← List.cons_append, List.drop_append_of_le_length hprefix.length_le]
  | none =>
    rw [hsign] at h
    cases h
    rfl

/-- **A lexeme that ends before the end of the text** ends there if the text goes on. -/
theorem first_append (h : first c cs = ⟨lexeme, text, rest⟩) (hclosed : lexeme ≠ .unclosed)
    (hrest : rest ≠ []) (post : List Char) :
    first c (cs ++ post) = ⟨lexeme, text, rest ++ post⟩ := by
  have hcs : cs ≠ [] := by
    obtain ⟨htext, hne⟩ := first_text_append_rest c cs
    rw [h] at htext hne
    rintro rfl
    rcases List.append_eq_singleton_iff.mp htext with ⟨hnil, -⟩ | ⟨-, hnil⟩
    · exact hne hnil
    · exact hrest hnil
  rw [first_eq] at h ⊢
  cases hfamily : family c with
  | space =>
    simp only [hfamily, Cut.mk.injEq] at h ⊢
    exact ⟨h.1, h.2.1, congrArg (· ++ post) h.2.2⟩
  | word | numeral =>
    simp only [hfamily] at h ⊢
    exact run_append h hrest post
  | literal =>
    simp only [hfamily] at h ⊢
    exact quotedCut_append h hclosed post
  | sign =>
    simp only [hfamily, List.head?_append_of_ne_nil cs hcs] at h ⊢
    split at h
    · next hcomment =>
      rw [if_pos hcomment]
      exact run_append h hrest post
    · next hcomment =>
      rw [if_neg hcomment]
      exact signCut_append h hcs post

/-- A lexeme that is cut off as a name **is spelled as the name**. -/
theorem spelled_of_first {name : String}
    (h : first c cs = ⟨.token (.identifier name), text, rest⟩) : name.toList = text := by
  have hspace : ¬ IsSpace c := fun hc => by
    rw [first_eq, family_of_isSpace hc] at h
    cases h
  have hdenotes : Denotes text (.identifier name) := (first_spec hspace h).2
  cases hdenotes with
  | name => exact String.toList_ofList

end Lexeme

namespace Scanned

variable {pos start stop : Nat} {cs more : List Char} {tokens body : List Token} {name : String}

/-- A text with a token before the mark of the end **is not empty**. -/
theorem ne_nil_of_token {t u : Token} (h : Scanned pos cs (body ++ [t, u])) : cs ≠ [] := by
  rintro rfl
  have hlength := congrArg List.length h.eq_of_nil
  simp at hlength

/-- **A name at the end of a text goes on** with the characters of any longer word. The tokens
before it stay what they are. -/
theorem longerWord
    (h : Scanned pos cs (body ++ [⟨.identifier name, ⟨start, stop⟩⟩, Token.endAt stop]))
    (hstop : stop = pos + byteLength cs) (hword : name.toList ++ more ∈ Pattern.word.language) :
    Scanned pos (cs ++ more)
      (body ++ [⟨Lexeme.wordKind (name.toList ++ more), ⟨start, stop + byteLength more⟩⟩,
        Token.endAt (stop + byteLength more)]) := by
  generalize htokens : body ++ [⟨.identifier name, ⟨start, stop⟩⟩, Token.endAt stop] = tokens at h
  induction h generalizing body with
  | @nil pos => exact absurd rfl (htokens ▸ @Scanned.nil pos).ne_nil_of_token
  | @blank pos c cs text rest tokens hcut hrest ih =>
    have hne : rest ≠ [] := (htokens ▸ hrest).ne_nil_of_token
    refine .blank (Lexeme.first_append hcut nofun hne more) (ih ?_ htokens)
    rw [hstop, Lexeme.byteLength_of_first hcut, Nat.add_assoc]
  | @token pos c cs kind text rest tokens hcut hrest ih =>
    cases body with
    | nil =>
      obtain ⟨⟨⟩, rfl⟩ := List.cons.inj htokens
      obtain rfl : rest = [] := by
        by_contra hne
        have hrest := byteLength_pos hne
        have hbytes := Lexeme.byteLength_of_first hcut
        omega
      have htext := Lexeme.text_append_of_first hcut
      rw [List.append_nil] at htext
      rw [Lexeme.spelled_of_first hcut, htext] at hword ⊢
      rw [Nat.add_assoc, ← byteLength_append]
      exact .token (Lexeme.first_of_word hword) .nil
    | cons t body =>
      obtain ⟨rfl, htail⟩ := List.cons.inj htokens
      have hne : rest ≠ [] := (htail ▸ hrest).ne_nil_of_token
      refine .token (Lexeme.first_append hcut nofun hne more) (ih ?_ htail)
      rw [hstop, Lexeme.byteLength_of_first hcut, Nat.add_assoc]

end Scanned

/-! ### The name before the cursor -/

/-- The text is a list of tokens, and **the last of them is a name** that reaches to the end. -/
def EndsInName (text : String) (body : List Token) (name : String) (start : Nat) : Prop :=
  tokenize text = .ok (body ++ [⟨.identifier name, ⟨start, text.utf8ByteSize⟩⟩,
    Token.endAt text.utf8ByteSize])

namespace Completion

/-- The name before the cursor is the one **in which the text ends**. -/
theorem nameBefore?_eq_some_iff {text name : String} :
    nameBefore? text = some name ↔ ∃ body start, EndsInName text body name start := by
  have hmunches := munches_tokensFrom 0 text.toList
  rw [← tokenize] at hmunches
  unfold EndsInName nameBefore?
  cases htokens : tokenize text with
  | error e => simp
  | ok tokens =>
    rw [htokens] at hmunches
    obtain ⟨body, rfl, -⟩ := hmunches
    obtain ⟨body', stop, hbody, hkinds⟩ := (tokensFrom_eq_ok_iff.mp htokens).exists_body
    obtain ⟨rfl, -⟩ := List.append_inj' hbody rfl
    have hfilter : (body ++ [Token.endAt (0 + byteLength text.toList)]).filter
        (fun t => t.kind ≠ .endOfInput) = body := by
      rw [List.filter_append, List.filter_eq_self.mpr fun t ht => decide_eq_true (hkinds t ht)]
      exact List.append_nil body
    simp only [hfilter]
    rw [Nat.zero_add, byteLength_toList]
    constructor
    · intro h
      split at h
      · next name' span hlast =>
        split at h
        · next hstop =>
          cases h
          obtain ⟨front, rfl⟩ := List.getLast?_eq_some_iff.mp hlast
          refine ⟨front, span.start, ?_⟩
          rw [← hstop, List.append_assoc]
          rfl
        · cases h
      · cases h
    · rintro ⟨front, start, h⟩
      rw [Except.ok.injEq, @List.append_cons _ front] at h
      obtain ⟨rfl, -⟩ := List.append_inj' h rfl
      simp

/-- What is offered depends on **the text before the place** only. -/
theorem complete_append (names : List String) (before after : String) :
    complete names (before ++ after) before.utf8ByteSize =
      (before.utf8ByteSize, endings names before) := by
  rw [complete, String.toList_append, ← byteLength_toList, Text.cutBytes_append,
    String.ofList_toList]

end Completion

/-- **The endings to offer** behind a text that ends in a name. -/
structure Completion.Offers (st : Store) (scope : Scope) (before : String) (body : List Token)
    (name : String) (start : Nat) (offered : List String) : Prop where
  /-- They stand in ascending order, each once. -/
  ascending : offered.Pairwise (· < ·)
  /-- They are what is missing from the name to another in sight, or to a keyword. -/
  mem_iff : ∀ c, c ∈ offered ↔
    c ≠ "" ∧ ((st.get? scope (name ++ c)).isSome ∨ ∃ k : Keyword, k.spelling = name ++ c)
  /-- With each of them the text has the same tokens, but for the last, which is the longer name or
  the keyword. -/
  tokenize_append : ∀ c ∈ offered, ∃ kind,
    (kind = .identifier (name ++ c) ∨ ∃ k : Keyword, k.spelling = name ++ c ∧ kind = .keyword k) ∧
      tokenize (before ++ c) = .ok (body ++
        [⟨kind, ⟨start, before.utf8ByteSize + c.utf8ByteSize⟩⟩,
          Token.endAt (before.utf8ByteSize + c.utf8ByteSize)])

/-- The token that a word is: **the keyword or the name** that it spells. -/
theorem Lexeme.wordKind_cases (word : String) : wordKind word.toList = .identifier word ∨
    ∃ k : Keyword, k.spelling = word ∧ wordKind word.toList = .keyword k := by
  rw [wordKind, String.ofList_toList]
  cases hk : Keyword.ofSpelling? word with
  | none => exact .inl rfl
  | some k => exact .inr ⟨k, Keyword.spelling_of_ofSpelling? hk, rfl⟩

/-- **The console offers the right endings and no others.** At a place between two characters of a
line, where the names are those of an interpreter that has run some texts: if the text before the
place ends in a name, what is offered are the endings that make it a longer name in sight or a
keyword; and if it does not, nothing is. -/
theorem complete_exact {opts : Options} {it : Interpreter} (hit : it.HasRun opts)
    (before after : String) :
    ∃ offered, Completion.complete it.names (before ++ after) before.utf8ByteSize =
        (before.utf8ByteSize, offered) ∧
      (∀ body name start, EndsInName before body name start →
        Completion.Offers it.state.store it.globals before body name start offered) ∧
      ((∀ body name start, ¬ EndsInName before body name start) → offered = []) := by
  refine ⟨_, Completion.complete_append it.names before after, fun body name start hends => ?_,
    fun hnone => ?_⟩
  · have hname := Completion.nameBefore?_eq_some_iff.mpr ⟨body, start, hends⟩
    have hmem (c : String) : c ∈ Completion.endings it.names before ↔ c ≠ "" ∧
        ((it.state.store.get? it.globals (name ++ c)).isSome ∨
          ∃ k : Keyword, k.spelling = name ++ c) := by
      rw [Completion.mem_endings hname, Interpreter.names, Store.mem_names]
    refine ⟨?_, hmem, fun c hc => ?_⟩
    · rw [Completion.endings, hname]
      exact Completion.pairwise_endings it.names name
    · have hword : Wordlike (name ++ c) := by
        rcases ((hmem c).mp hc).2 with hbound | ⟨k, hk⟩
        · exact hit.bindsWords.1.of_get? hbound
        · exact hk ▸ k.wordlike
      have hscanned := tokensFrom_eq_ok_iff.mp hends
      refine ⟨_, Lexeme.wordKind_cases (name ++ c), tokensFrom_eq_ok_iff.mpr ?_⟩
      rw [Wordlike, String.toList_append] at hword
      have hlonger := hscanned.longerWord (by simp) hword
      rwa [byteLength_toList, ← String.toList_append, ← String.toList_append] at hlonger
  · have hname : Completion.nameBefore? before = none := by
      rw [Option.eq_none_iff_forall_ne_some]
      intro name hname
      obtain ⟨body, start, hends⟩ := Completion.nameBefore?_eq_some_iff.mp hname
      exact hnone body name start hends
    rw [Completion.endings, hname]

/-- A keyword that is the name of the builtin procedure too, and a name that has been declared. -/
theorem complete_exact_declared :
    ∃ it, Interpreter.HasRun {} it ∧
      EndsInName "-pr" [⟨.operator .minus, ⟨0, 1⟩⟩] "pr" 1 ∧
      Completion.complete it.names ("-pr" ++ ")") 3 = (3, ["int", "y"]) ∧
      Completion.Offers it.state.store it.globals "-pr" [⟨.operator .minus, ⟨0, 1⟩⟩] "pr" 1
        ["int", "y"] := by
  obtain ⟨tokens, hscanned, rfl⟩ : ∃ tokens,
      Scanned 0 ['d', 'e', 'c', 'l', 'a', 'r', 'e', ' ', 'p', 'r', 'y', '=', '\'', '\''] tokens ∧
      tokens = [⟨.keyword .declare, ⟨0, 7⟩⟩, ⟨.identifier "pry", ⟨8, 11⟩⟩,
        ⟨.mark .assign, ⟨11, 12⟩⟩, ⟨.text "", ⟨12, 14⟩⟩, ⟨.endOfInput, ⟨14, 14⟩⟩] :=
    ⟨_, .token rfl <| .blank rfl <| .token rfl <| .token rfl <| .token rfl .nil, rfl⟩
  have htokens : tokenize "declare pry=''" = _ := tokenize_ofList_eq_ok_iff.mpr hscanned
  obtain ⟨tokens', hscanned', rfl⟩ : ∃ tokens, Scanned 0 ['-', 'p', 'r'] tokens ∧
      tokens = [⟨.operator .minus, ⟨0, 1⟩⟩, ⟨.identifier "pr", ⟨1, 3⟩⟩, ⟨.endOfInput, ⟨3, 3⟩⟩] :=
    ⟨_, .token rfl <| .token rfl .nil, rfl⟩
  have hends : EndsInName "-pr" [⟨.operator .minus, ⟨0, 1⟩⟩] "pr" 1 :=
    tokenize_ofList_eq_ok_iff.mpr hscanned'
  obtain ⟨it, hrun, hnames⟩ : ∃ it, (Interpreter.new {}).runSource ⟨1, 1⟩ "declare pry=''" =
      some (.ok (.text ""), it) ∧ it.names = ["print", "pry"] := by
    refine ⟨{ Interpreter.new {} with
      texts := 1, state := (Interpreter.new {}).state.define ⟨0, []⟩ "pry" (.text "") }, ?_, ?_⟩
    · rw [Interpreter.runSource, Program.ofSource, htokens]
      rfl
    · decide
  have hit : Interpreter.HasRun {} it := .text .new hrun
  obtain ⟨offered, hoffered, hexact, -⟩ := complete_exact hit "-pr" ")"
  have hlist : offered = ["int", "y"] := by
    rw [Completion.complete_append, Completion.endings,
      Completion.nameBefore?_eq_some_iff.mpr ⟨_, _, hends⟩, hnames] at hoffered
    exact (congrArg Prod.snd hoffered).symm.trans (by decide)
  subst hlist
  exact ⟨it, hit, hends, hoffered, hexact _ _ _ hends⟩

end ScopeScript
