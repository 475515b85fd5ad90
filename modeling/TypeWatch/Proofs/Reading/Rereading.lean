import TypeWatch.Proofs.Reading.Loops
import TypeWatch.Proofs.Reading.Operands
import TypeWatch.Proofs.Reading.Trailers

/-! # Expressions read again from their words

A tight expression is read from the words of its written form. The induction follows the expression, with a
companion for each kind of list in it; each node is one lemma about its words. -/
namespace TypeWatch
set_option autoImplicit false

/-! ## Open sides -/

namespace Expr

/-- No operator that is open on the left side binds as weakly as the one of a named expression. -/
theorem named_lt_head : ∀ e : Expr, Power.named.rank < e.head
  | binary _ left op _ => by
    rw [head]
    have hop : Power.named.rank < op.binds.rank := by cases op <;> decide
    exact Nat.lt_min.mpr ⟨hop, named_lt_head left⟩
  | conditional _ _ body _ => by
    rw [head]
    exact Nat.lt_min.mpr ⟨by decide, named_lt_head body⟩
  | name .. | constant .. | member .. | subscript .. | slice .. | tuple .. | list .. | set .. | dict ..
  | call .. | keyword .. | starred .. | unary .. | lambda .. | comprehension .. | named .. | await ..
  | yield .. => by
    simp only [head]
    decide

theorem head_of_tail {e : Expr} (h : e.tail = Power.trailer.rank) : e.head = Power.trailer.rank := by
  cases e with
  | binary s left op right =>
    have hle : (binary s left op right).tail ≤ (Reading.rightLevel op).rank := Nat.min_le_left _ _
    have hlt : (Reading.rightLevel op).rank < Power.trailer.rank := by cases op <;> decide
    omega
  | conditional s test body orelse =>
    have hle : (conditional s test body orelse).tail ≤ Power.named.rank := Nat.min_le_left _ _
    rw [h] at hle
    exact absurd hle (by decide)
  | _ => rfl

/-- The first word, where its kind is known not to be one that is looked for. -/
theorem ne_of_beginsWith {kind : TokenKind} {e : Expr} (h : e.beginsWith kind = false) :
    ∀ w ∈ e.words.head?, w.1 ≠ kind := by
  intro w hw hkind
  rw [beginsWith, hw] at h
  simp [hkind] at h

/-- A comprehension has a loop, whose words follow the element. -/
theorem wordsClauses_eq {cs : List Clause} (h : cs ≠ []) :
    ∃ isAsync rest, wordsClauses cs = Reading.loopMark isAsync ++ rest := by
  obtain ⟨⟨target, iter, conditions, isAsync⟩, cs, rfl⟩ := List.exists_cons_of_ne_nil h
  refine ⟨isAsync, target.words ++ keyWord .kwIn :: (iter.words ++
    (wordsConditions conditions ++ wordsClauses cs)), ?_⟩
  simp [wordsClauses, Reading.loopMark]

end Expr

namespace Reading

/-! ## Nodes -/

section Nodes

variable {e l : Expr}

theorem stands_of_phrase (h : Phrase e.words e e.head e.tail) : Stands e.words e :=
  ⟨e.head, e.tail, e.named_lt_head, h⟩

theorem phrase_of_tail (h : Phrase l.words l l.head l.tail) (htail : l.tail = closed) :
    Phrase l.words l closed closed := by
  have hhead := Expr.head_of_tail htail
  rw [htail, hhead] at h
  exact h

theorem wordsConditions_cases (es : List Expr) {tail : Nat}
    (h : es.isEmpty = true ∨ Power.conditional.rank ≤ tail) : Expr.wordsConditions es = [] ∨
      (∃ rest, Expr.wordsConditions es = keyWord .kwIf :: rest) ∧ Power.conditional.rank ≤ tail := by
  cases es with
  | nil => exact Or.inl rfl
  | cons e es =>
    rcases h with h | h
    · exact absurd h nofun
    · exact Or.inr ⟨⟨_, rfl⟩, h⟩

theorem loopsOrNone_wordsClauses (cs : List Clause) : LoopsOrNone (Expr.wordsClauses cs) := by
  cases cs with
  | nil => exact Or.inl rfl
  | cons c cs => exact Or.inr (Expr.wordsClauses_eq (List.cons_ne_nil c cs))

end Nodes

mutual

/-- A tight expression is read from its words, wherever the level and the next word let it. -/
theorem phrase_of_isTight : ∀ e : Expr, e.isTight = true → Phrase e.words e e.head e.tail
  | .name s id, _ => phrase_name s id
  | .constant s value, _ => phrase_constant s value
  | .member s value attr, h => by
    simp only [Expr.isTight, Bool.and_eq_true, beq_iff_eq] at h
    obtain ⟨⟨hvalue, htail⟩, -⟩ := h
    exact phrase_member s attr (phrase_of_tail (phrase_of_isTight value hvalue) htail)
  | .subscript s value index, h => by
    cases index with
    | tuple s' elements =>
      simp only [Expr.isTight, Bool.and_eq_true, beq_iff_eq] at h
      obtain ⟨⟨hvalue, htail⟩, helements⟩ := h
      exact phrase_subscript s (phrase_of_tail (phrase_of_isTight value hvalue) htail)
        (indicesOn_tuple s' (stands_of_tightIndices elements helements))
    | slice s' lower upper step =>
      simp only [Expr.isTight, Bool.and_eq_true, beq_iff_eq] at h
      obtain ⟨⟨hvalue, htail⟩, ⟨hlower, hupper⟩, hstep⟩ := h
      exact phrase_subscript s (phrase_of_tail (phrase_of_isTight value hvalue) htail)
        (indicesOn_one (.slice s' (part_of_tightOption lower hlower) (part_of_tightOption upper hupper)
          (step_of_tightOption step hstep)))
    | _ =>
      rw [Expr.isTight, Bool.and_eq_true, Bool.and_eq_true, beq_iff_eq] at h
      · obtain ⟨⟨hvalue, htail⟩, hindex⟩ := h
        exact phrase_subscript s (phrase_of_tail (phrase_of_isTight value hvalue) htail)
          (indicesOn_one (.expr (stands_of_phrase (phrase_of_isTight _ hindex))))
      all_goals exact nofun
  | .slice .., h => absurd h nofun
  | .keyword .., h => absurd h nofun
  | .tuple s elements, h => by
    rw [Expr.isTight] at h
    exact phrase_tuple s (stands_of_tightList elements h)
  | .list s elements, h => by
    rw [Expr.isTight] at h
    exact phrase_list s (stands_of_tightList elements h)
  | .set s elements, h => by
    cases elements with
    | nil => exact absurd h nofun
    | cons e es =>
      rw [Expr.isTight, Bool.and_eq_true] at h
      exact phrase_set s (stands_of_tightList (e :: es) h.2)
  | .dict s entries, h => by
    rw [Expr.isTight] at h
    exact phrase_dict s (stands_of_tightEntries entries h)
  | .call s callee arguments, h => by
    simp only [Expr.isTight, Bool.and_eq_true, beq_iff_eq] at h
    obtain ⟨⟨hcallee, htail⟩, harguments⟩ := h
    exact phrase_call s (phrase_of_tail (phrase_of_isTight callee hcallee) htail)
      (stands_of_tightArguments arguments harguments)
  | .starred s value, h => by
    simp only [Expr.isTight, Bool.and_eq_true, decide_eq_true_eq] at h
    exact phrase_starred s (phrase_of_isTight value h.1.1) h.1.2
  | .binary s left op right, h => by
    simp only [Expr.isTight, Bool.and_eq_true, decide_eq_true_eq] at h
    obtain ⟨⟨⟨⟨hleft, hright⟩, htail⟩, hhead⟩, hnot⟩ := h
    refine phrase_binary s op (phrase_of_isTight left hleft) htail (phrase_of_isTight right hright) hhead ?_
    rintro rfl
    exact Expr.ne_of_beginsWith (by simpa using hnot)
  | .unary s op operand, h => by
    simp only [Expr.isTight, Bool.and_eq_true, decide_eq_true_eq] at h
    exact phrase_unary s op (phrase_of_isTight operand h.1) h.2
  | .lambda s parameters body, h => by
    simp only [Expr.isTight, Bool.and_eq_true] at h
    obtain ⟨⟨hkinds, hparameters⟩, hbody⟩ := h
    exact phrase_lambda s (stands_of_tightParameters parameters .regular hkinds hparameters) hkinds
      (phrase_of_isTight body hbody) body.named_lt_head
  | .conditional s test body orelse, h => by
    simp only [Expr.isTight, Bool.and_eq_true, decide_eq_true_eq] at h
    obtain ⟨⟨⟨⟨hbody, htail⟩, htest⟩, hhead⟩, horelse⟩ := h
    exact phrase_conditional s (phrase_of_isTight body hbody) htail (phrase_of_isTight test htest) hhead
      (phrase_of_isTight orelse horelse) orelse.named_lt_head
  | .comprehension s kind element none clauses, h => by
    simp only [Expr.isTight, Bool.and_eq_true, bne_iff_ne] at h
    obtain ⟨⟨⟨hkind, helement⟩, hsome⟩, hclauses⟩ := h
    have hloops := clausesOn_of_tight clauses hclauses
    obtain ⟨isAsync, rest, hwords⟩ := Expr.wordsClauses_eq (List.isEmpty_eq_false_iff.mp (by simpa using hsome))
    rw [hwords] at hloops
    rw [Expr.words, hwords]
    exact phrase_comprehension s hkind (stands_of_phrase (phrase_of_isTight element helement)) hloops
  | .comprehension s kind element (some value) clauses, h => by
    simp only [Expr.isTight, Bool.and_eq_true, beq_iff_eq] at h
    obtain ⟨⟨⟨⟨rfl, helement⟩, hvalue⟩, hsome⟩, hclauses⟩ := h
    have hloops := clausesOn_of_tight clauses hclauses
    obtain ⟨isAsync, rest, hwords⟩ := Expr.wordsClauses_eq (List.isEmpty_eq_false_iff.mp (by simpa using hsome))
    rw [hwords] at hloops
    rw [Expr.words, hwords]
    exact phrase_dictComprehension s (stands_of_phrase (phrase_of_isTight element helement))
      (stands_of_phrase (phrase_of_isTight value hvalue)) hloops
  | .named s target value, h => by
    cases target with
    | name s' id =>
      rw [Expr.isTight] at h
      have hinner := inner_named s s' id (stands_of_phrase (phrase_of_isTight value h))
      exact phrase_group hinner
    | _ => exact absurd h nofun
  | .await s value, h => by
    simp only [Expr.isTight, Bool.and_eq_true, decide_eq_true_eq] at h
    exact phrase_await s (phrase_of_isTight value h.1) h.2
  | .yield s (some value) delegates, h => by
    rw [Expr.isTight] at h
    have hvalue := stands_of_phrase (phrase_of_isTight value h)
    cases delegates with
    | true => exact phrase_group (inner_yieldFrom s hvalue)
    | false => exact phrase_group (inner_yield s hvalue)
  | .yield s none delegates, h => by
    cases delegates with
    | true => exact absurd h nofun
    | false => exact phrase_group (inner_yieldNothing s)

theorem part_of_tightOption : ∀ o : Option Expr, Expr.tightOption o = true →
    PartStands (Expr.wordsOption o) o
  | none, _ => .absent
  | some e, h => .present (stands_of_phrase (phrase_of_isTight e (by rwa [Expr.tightOption] at h)))

theorem step_of_tightOption : ∀ o : Option Expr, Expr.tightOption o = true →
    AfterMark .colon (Expr.wordsStep o) o
  | none, _ => .absent
  | some e, h => .present (stands_of_phrase (phrase_of_isTight e (by rwa [Expr.tightOption] at h)))

theorem stands_of_tightList : ∀ es : List Expr, Expr.tightList es = true →
    List.Forall₂ Stands (Expr.wordsList es) es
  | [], _ => .nil
  | e :: es, h => by
    rw [Expr.tightList, Bool.and_eq_true] at h
    exact .cons (stands_of_phrase (phrase_of_isTight e h.1)) (stands_of_tightList es h.2)

theorem stands_of_tightIndices : ∀ es : List Expr, Expr.tightIndices es = true →
    List.Forall₂ IndexStands (Expr.wordsList es) es
  | [], _ => .nil
  | e :: es, h => by
    cases e with
    | slice s lower upper step =>
      simp only [Expr.tightIndices, Bool.and_eq_true] at h
      obtain ⟨⟨⟨hlower, hupper⟩, hstep⟩, hes⟩ := h
      exact .cons (.slice s (part_of_tightOption lower hlower) (part_of_tightOption upper hupper)
        (step_of_tightOption step hstep)) (stands_of_tightIndices es hes)
    | _ =>
      rw [Expr.tightIndices, Bool.and_eq_true] at h
      · exact .cons (.expr (stands_of_phrase (phrase_of_isTight _ h.1))) (stands_of_tightIndices es h.2)
      · exact nofun

theorem stands_of_tightArguments : ∀ es : List Expr, Expr.tightArguments es = true →
    List.Forall₂ ArgumentStands (Expr.wordsList es) es
  | [], _ => .nil
  | e :: es, h => by
    cases e with
    | keyword s label value =>
      rw [Expr.tightArguments, Bool.and_eq_true] at h
      have hvalue := stands_of_phrase (phrase_of_isTight value h.1)
      cases label with
      | none => exact .cons (.mapping s hvalue) (stands_of_tightArguments es h.2)
      | some label => exact .cons (.named s label hvalue) (stands_of_tightArguments es h.2)
    | starred s value =>
      simp only [Expr.tightArguments, Bool.and_eq_true, decide_eq_true_eq] at h
      obtain ⟨⟨⟨hvalue, hhead⟩, -⟩, hes⟩ := h
      exact .cons (.starred s hhead (phrase_of_isTight value hvalue)) (stands_of_tightArguments es hes)
    | _ =>
      rw [Expr.tightArguments, Bool.and_eq_true, Bool.and_eq_true, Bool.not_eq_true'] at h
      · obtain ⟨⟨he, hstar⟩, hes⟩ := h
        exact .cons (.plain (stands_of_phrase (phrase_of_isTight _ he)) (Expr.ne_of_beginsWith hstar))
          (stands_of_tightArguments es hes)
      all_goals exact nofun

theorem stands_of_tightEntries : ∀ es : List Entry, Expr.tightEntries es = true →
    List.Forall₂ EntryStands (Expr.wordsEntries es) es
  | [], _ => .nil
  | .pair key value :: es, h => by
    simp only [Expr.tightEntries, Bool.and_eq_true] at h
    obtain ⟨⟨hkey, hvalue⟩, hes⟩ := h
    exact .cons (.pair (stands_of_phrase (phrase_of_isTight key hkey))
      (stands_of_phrase (phrase_of_isTight value hvalue))) (stands_of_tightEntries es hes)
  | .unpack value :: es, h => by
    simp only [Expr.tightEntries, Bool.and_eq_true, decide_eq_true_eq] at h
    obtain ⟨⟨hvalue, hhead⟩, hes⟩ := h
    exact .cons (.unpack hhead (phrase_of_isTight value hvalue)) (stands_of_tightEntries es hes)

theorem conditionsOn_of_tight : ∀ es : List Expr, Expr.tightConditions es = true →
    ConditionsOn (Expr.wordsConditions es) es
  | [], _ => conditionsOn_nil
  | e :: es, h => by
    simp only [Expr.tightConditions, Bool.and_eq_true, Bool.or_eq_true, decide_eq_true_eq] at h
    obtain ⟨⟨⟨he, hhead⟩, htail⟩, hes⟩ := h
    exact conditionsOn_cons (phrase_of_isTight e he) hhead (wordsConditions_cases es htail)
      (conditionsOn_of_tight es hes)

theorem clausesOn_of_tight : ∀ cs : List Clause, Expr.tightClauses cs = true →
    ClausesOn (Expr.wordsClauses cs) cs
  | [], _ => clausesOn_nil
  | .mk target iter conditions isAsync :: cs, h => by
    simp only [Expr.tightClauses, Bool.and_eq_true, Bool.or_eq_true, decide_eq_true_eq] at h
    obtain ⟨⟨⟨⟨⟨htarget, hheadt⟩, htailt⟩, ⟨⟨hiter, hheadi⟩, htaili⟩⟩, hconditions⟩, hcs⟩ := h
    have hloop := clausesOn_cons isAsync (phrase_of_isTight target htarget) hheadt htailt
      (phrase_of_isTight iter hiter) hheadi (wordsConditions_cases conditions htaili)
      (conditionsOn_of_tight conditions hconditions) (loopsOrNone_wordsClauses cs)
      (clausesOn_of_tight cs hcs)
    rw [loopMark, List.append_assoc, List.singleton_append] at hloop
    rwa [Expr.wordsClauses]

theorem stands_of_tightParameters : ∀ (ps : List Parameter) (kind : ParameterKind),
    Expr.keepsKinds kind ps = true → Expr.tightParameters ps = true →
    List.Forall₂ ParameterStands (Expr.wordsParameters ps) ps
  | [], _, _, _ => .nil
  | .mk s k id hint standard :: ps, kind, hkinds, h => by
    simp only [Expr.tightParameters, Bool.and_eq_true, Option.isNone_iff_eq_none] at h
    obtain ⟨⟨rfl, hstandard⟩, hps⟩ := h
    cases k with
    | variadic =>
      simp only [Expr.keepsKinds, Bool.and_eq_true, Option.isNone_iff_eq_none] at hkinds
      obtain ⟨rfl, hkinds⟩ := hkinds
      exact .cons (.variadic s id) (stands_of_tightParameters ps .keywordOnly hkinds hps)
    | variadicKeywords =>
      simp only [Expr.keepsKinds, Bool.and_eq_true, Option.isNone_iff_eq_none] at hkinds
      obtain ⟨rfl, hkinds⟩ := hkinds
      exact .cons (.variadicKeywords s id) (stands_of_tightParameters ps kind hkinds hps)
    | _ =>
      rw [Expr.keepsKinds, Bool.and_eq_true] at hkinds
      · have hps := stands_of_tightParameters ps kind hkinds.2 hps
        cases standard with
        | none => exact .cons (.plain s id nofun nofun .absent) hps
        | some e =>
          have he := stands_of_phrase (phrase_of_isTight e (by rwa [Expr.tightOption] at hstandard))
          exact .cons (.plain s id nofun nofun (.present he)) hps
      all_goals exact nofun

end

/-! ## Whole streams -/

theorem words_ofTokens {ws : List Word} (hno : ∀ w ∈ ws, w.1 ≠ .endOfInput) {tokens : List Token}
    (h : tokens.map Token.word = ws ++ [(.endOfInput, "")]) : (Cursor.ofTokens tokens).words = ws := by
  obtain ⟨body, last, rfl, hbody, hlast⟩ := List.map_eq_append_iff.mp h
  obtain ⟨stop, rfl, hstop⟩ := List.map_eq_singleton_iff.mp hlast
  have hend : stop.kind = .endOfInput := congrArg Prod.fst hstop
  have htake : (body ++ [stop]).takeWhile (fun t => t.kind ≠ .endOfInput) = body := by
    rw [List.takeWhile_append_of_pos, List.takeWhile_cons_of_neg, List.append_nil]
    · simp [hend]
    · intro t ht
      exact decide_eq_true (hno t.word (hbody ▸ List.mem_map_of_mem ht))
  rw [Cursor.words, Cursor.ofTokens, htake, hbody]

theorem isEmpty_skipNewlines {c : Cursor} {text : String} (h : c.words = [(.newline, text)]) :
    c.skipNewlines.rest.isEmpty = true := by
  obtain ⟨t, d, h1, haccept, -, hd⟩ := Cursor.accept?_of_words h
  have hrest : d.rest = [] := List.map_eq_nil_iff.mp hd
  have hnone : d.accept? .newline = none := by
    rw [Cursor.accept?, Cursor.next?]
    split
    · rename_i hnext
      split at hnext
      · cases hnext
      · rename_i hcons
        cases hrest.symm.trans hcons
    · rfl
  rw [Cursor.skipNewlines, haccept]
  simp only
  rw [Cursor.skipNewlines, hnone]
  simp [hrest]

/-- The words of one line. -/
theorem words_ofTokens_line {ws : List Word} (hno : ∀ w ∈ ws, w.1.isLayout = false) {tokens : List Token}
    (ht : tokens.map Token.word = ws ++ [(.newline, ""), (.endOfInput, "")]) :
    (Cursor.ofTokens tokens).words = ws ++ [(.newline, "")] := by
  refine words_ofTokens ?_ (ht.trans (List.append_assoc _ [_] [_]).symm)
  intro w hw heq
  rcases List.mem_append.mp hw with hw | hw
  · have hlayout := hno w hw
    rw [heq] at hlayout
    exact absurd hlayout nofun
  · rw [List.mem_singleton.mp hw] at heq
    exact absurd heq nofun

/-- Tokens are what is read of them up to the end of the line. -/
theorem ofTokens_of_finds {tokens : List Token} {P : Expr → Prop}
    (hread : (expr .least (Cursor.ofTokens tokens)).Finds fun e d => P e ∧ d.words = [(.newline, "")]) :
    Finds (Expr.ofTokens tokens) P := by
  have hlist : (exprList (exprBelow _) .least _ (Cursor.ofTokens tokens).size_below).Finds fun e d =>
      P e ∧ d.words = [(.newline, "")] := by
    refine Read.finds_bind hread ?_
    rintro x d _ ⟨hx, hd⟩
    have hcomma : ¬d.kind = .op .comma := by
      rw [Cursor.kind_of_words hd]
      exact nofun
    simp only [if_neg hcomma]
    exact finds_ok ⟨hx, hd⟩
  refine Read.finds_bind hlist ?_
  rintro x d _ ⟨hx, hd⟩
  simp only [isEmpty_skipNewlines hd, if_true]
  exact finds_ok hx

/-- An expression is what its words and the end of the line are read as. -/
theorem ofTokens_of_stands {ws : List Word} {e : Expr} (h : Stands ws e) (hno : ∀ w ∈ ws, w.1.isLayout = false)
    {tokens : List Token} (ht : tokens.map Token.word = ws ++ [(.newline, ""), (.endOfInput, "")]) :
    ∃ e', Expr.ofTokens tokens = .ok e' ∧ e'.bare = e.bare := by
  have hstops : Stops .newline := ⟨rfl, rfl, rfl⟩
  exact ofTokens_of_finds (h.least hstops (words_ofTokens_line hno ht))

end Reading
end TypeWatch
