import TypeWatch.Proofs.Reading.Rereading
import TypeWatch.Proofs.Reading.Spelled
import TypeWatch.Proofs.Syntax.WrittenWords

/-! # Written forms read again

A tight expression is read from its written form, with other places. -/
namespace TypeWatch
set_option autoImplicit false

namespace Expr

mutual

/-- The written form of a tight expression is cut into its words. -/
theorem cut_of_isTight : ∀ e : Expr, e.Spelled → e.isTight = true → e.Cut
  | name s id, hs, h => by
    refine ⟨h, begins_written _ hs, fun rest hrest => ?_⟩
    rw [Spelled] at hs
    exact cuts_name hs hrest.edge
  | constant s value, hs, h =>
    ⟨h, begins_written _ hs, fun rest hrest => by
      rw [written, words]
      exact cuts_constant s value hs hrest⟩
  | member s value attr, hs, h => by
    refine ⟨h, begins_written _ hs, fun rest hrest => ?_⟩
    simp only [Spelled, isTight, Bool.and_eq_true, beq_iff_eq, Bool.not_eq_true'] at hs h
    exact cuts_member s (cut_of_isTight value hs.1 h.1.1) h.1.2 h.2 hs.2 hrest.edge
  | subscript s value index, hs, h => by
    refine ⟨h, begins_written _ hs, fun rest hrest => ?_⟩
    rw [Spelled] at hs
    cases index with
    | tuple s' elements =>
      simp only [isTight, Bool.and_eq_true, Spelled] at hs h
      exact cuts_subscript s (cut_of_isTight value hs.1 h.1.1)
        (cuts_index (items_of_tightIndices elements hs.2 h.2) rest) (by rw [written]) (by rw [words])
    | slice s' lower upper step =>
      simp only [isTight, Bool.and_eq_true, Spelled] at hs h
      have hslice := item_slice s' (cut_of_tightOption lower hs.2.1 h.2.1.1)
        (cut_of_tightOption upper hs.2.2.1 h.2.1.2) (cut_of_tightOption step hs.2.2.2 h.2.2)
      exact cuts_subscript s (cut_of_isTight value hs.1 h.1.1) (hslice.cuts _ (gap_cons (by decide) rest))
        (by rw [written]; exact nofun) (by rw [words]; exact nofun)
    | _ =>
      rw [isTight, Bool.and_eq_true, Bool.and_eq_true] at h
      · exact cuts_subscript s (cut_of_isTight value hs.1 h.1.1)
          ((cut_of_isTight _ hs.2 h.2).inGap (gap_cons (by decide) rest)) rfl rfl
      all_goals exact nofun
  | slice .., _, h => absurd h nofun
  | keyword .., _, h => absurd h nofun
  | tuple s elements, hs, h => by
    refine ⟨h, begins_written _ hs, fun rest _ => ?_⟩
    rw [Spelled] at hs
    rw [isTight] at h
    exact cuts_tuple (items_of_tightList elements hs h) rest
  | list s elements, hs, h => by
    refine ⟨h, begins_written _ hs, fun rest _ => ?_⟩
    rw [Spelled] at hs
    rw [isTight] at h
    have hcuts := cuts_commaSeparated (items_of_tightList elements hs h) (gap_cons (d := ']') (by decide) rest)
    simpa [written, words] using Cuts.brackets hcuts
  | set s elements, hs, h => by
    refine ⟨h, begins_written _ hs, fun rest _ => ?_⟩
    rw [Spelled] at hs
    rw [isTight, Bool.and_eq_true] at h
    have hcuts := cuts_commaSeparated (items_of_tightList elements hs h.2) (gap_cons (d := '\x7d') (by decide) rest)
    simpa [written, words, braced] using Cuts.braces hcuts
  | dict s entries, hs, h => by
    refine ⟨h, begins_written _ hs, fun rest _ => ?_⟩
    rw [Spelled] at hs
    rw [isTight] at h
    have hcuts := cuts_commaSeparated (items_of_tightEntries entries hs h) (gap_cons (d := '\x7d') (by decide) rest)
    simpa [written, words, braced] using Cuts.braces hcuts
  | call s callee arguments, hs, h => by
    refine ⟨h, begins_written _ hs, fun rest _ => ?_⟩
    simp only [Spelled, isTight, Bool.and_eq_true] at hs h
    exact cuts_call s (cut_of_isTight callee hs.1 h.1.1) (items_of_tightArguments arguments hs.2 h.2)
  | starred s value, hs, h => by
    refine ⟨h, begins_written _ hs, fun rest hrest => ?_⟩
    simp only [Spelled, isTight, Bool.and_eq_true, Bool.not_eq_true'] at hs h
    exact cuts_starred s (cut_of_isTight value hs h.1.1) h.2 (hrest.gap_of_le (Nat.min_le_left _ _) (by decide))
  | binary s left op right, hs, h => by
    refine ⟨h, begins_written _ hs, fun rest hrest => ?_⟩
    simp only [Spelled, isTight, Bool.and_eq_true] at hs h
    have hweak : (Reading.rightLevel op).rank < Power.trailer.rank := by cases op <;> decide
    exact cuts_binary s op (cut_of_isTight left hs.1 h.1.1.1.1) (cut_of_isTight right hs.2 h.1.1.1.2)
      (hrest.gap_of_le (Nat.min_le_left _ _) hweak)
  | unary s op operand, hs, h => by
    refine ⟨h, begins_written _ hs, fun rest hrest => ?_⟩
    simp only [Spelled, isTight, Bool.and_eq_true] at hs h
    have hweak : op.binds.rank < Power.trailer.rank := by cases op <;> decide
    exact cuts_unary s op (cut_of_isTight operand hs h.1) (hrest.gap_of_le (Nat.min_le_left _ _) hweak)
  | lambda s parameters body, hs, h => by
    refine ⟨h, begins_written _ hs, fun rest hrest => ?_⟩
    simp only [Spelled, isTight, Bool.and_eq_true] at hs h
    exact cuts_lambda s (cut_of_isTight body hs.2 h.2) (items_of_tightParameters parameters hs.1 h.1.2)
      (hrest.gap_of_le (Nat.min_le_left _ _) (by decide))
  | conditional s test body orelse, hs, h => by
    refine ⟨h, begins_written _ hs, fun rest hrest => ?_⟩
    simp only [Spelled, isTight, Bool.and_eq_true] at hs h
    obtain ⟨htest, hbody, horelse⟩ := hs
    exact cuts_conditional s (cut_of_isTight test htest h.1.1.2) (cut_of_isTight body hbody h.1.1.1.1)
      (cut_of_isTight orelse horelse h.2) (hrest.gap_of_le (Nat.min_le_left _ _) (by decide))
  | comprehension s kind element none clauses, hs, h => by
    refine ⟨h, begins_written _ hs, fun rest _ => ?_⟩
    simp only [Spelled, isTight, Bool.and_eq_true] at hs h
    rw [written, words, ← List.append_assoc element.words]
    refine cuts_enclosed kind _ (fun rest hrest => ?_) rest
    rw [String.toList_append]
    exact ((cut_of_isTight element hs.1 h.1.1.2).inGap (gap_clauses clauses hrest)).append
      (cuts_of_tightClauses clauses hs.2.2.2 h.2 rest hrest)
  | comprehension s kind element (some value) clauses, hs, h => by
    refine ⟨h, begins_written _ hs, fun rest _ => ?_⟩
    simp only [Spelled, isTight, Bool.and_eq_true, spelledOption] at hs h
    have hpair := item_pair (cut_of_isTight element hs.1 h.1.1.1.2) (cut_of_isTight value hs.2.1 h.1.1.2)
    have hcuts := cuts_enclosed kind (element.written ++ ": " ++ value.written ++ writtenClauses clauses)
      (fun rest hrest => by
        rw [String.toList_append]
        exact (hpair.cuts _ (gap_clauses clauses hrest)).append
          (cuts_of_tightClauses clauses hs.2.2.2 h.2 rest hrest)) rest
    simpa [written, words] using hcuts
  | named s target value, hs, h => by
    refine ⟨h, begins_written _ hs, fun rest _ => ?_⟩
    rw [Spelled] at hs
    cases target with
    | name s' id =>
      rw [isTight] at h
      exact cuts_named s (cut_of_isTight (name s' id) hs.1 rfl) (cut_of_isTight value hs.2 h) rest
    | _ => exact absurd h nofun
  | await s value, hs, h => by
    refine ⟨h, begins_written _ hs, fun rest hrest => ?_⟩
    simp only [Spelled, isTight, Bool.and_eq_true] at hs h
    exact cuts_await s (cut_of_isTight value hs h.1) (hrest.gap_of_le (Nat.min_le_left _ _) (by decide))
  | yield s (some value) delegates, hs, h => by
    refine ⟨h, begins_written _ hs, fun rest _ => ?_⟩
    rw [Spelled, spelledOption] at hs
    rw [isTight] at h
    exact cuts_yield s (cut_of_isTight value hs h) delegates rest
  | yield s none delegates, hs, h => ⟨h, begins_written _ hs, fun rest _ => cuts_yieldNothing s delegates rest⟩

theorem cut_of_tightOption : ∀ o : Option Expr, spelledOption o → tightOption o = true → ∀ e ∈ o, e.Cut
  | none, _, _ => nofun
  | some e, hs, h => by
    intro x hx
    obtain rfl := Option.some.inj hx
    exact cut_of_isTight e hs (by rwa [tightOption] at h)

theorem items_of_tightList : ∀ es : List Expr, spelledList es → tightList es = true →
    List.Forall₂ Item (writtenList es) (wordsList es)
  | [], _, _ => .nil
  | e :: es, hs, h => by
    rw [spelledList] at hs
    rw [tightList, Bool.and_eq_true] at h
    exact .cons (cut_of_isTight e hs.1 h.1).item (items_of_tightList es hs.2 h.2)

theorem items_of_tightIndices : ∀ es : List Expr, spelledList es → tightIndices es = true →
    List.Forall₂ Item (writtenList es) (wordsList es)
  | [], _, _ => .nil
  | e :: es, hs, h => by
    rw [spelledList] at hs
    cases e with
    | slice s lower upper step =>
      simp only [tightIndices, Bool.and_eq_true, Spelled] at hs h
      obtain ⟨⟨⟨hlower, hupper⟩, hstep⟩, hes⟩ := h
      exact .cons (item_slice s (cut_of_tightOption lower hs.1.1 hlower) (cut_of_tightOption upper hs.1.2.1 hupper)
        (cut_of_tightOption step hs.1.2.2 hstep)) (items_of_tightIndices es hs.2 hes)
    | _ =>
      rw [tightIndices, Bool.and_eq_true] at h
      · exact .cons (cut_of_isTight _ hs.1 h.1).item (items_of_tightIndices es hs.2 h.2)
      · exact nofun

theorem items_of_tightArguments : ∀ es : List Expr, spelledList es → tightArguments es = true →
    List.Forall₂ Item (writtenList es) (wordsList es)
  | [], _, _ => .nil
  | e :: es, hs, h => by
    rw [spelledList] at hs
    cases e with
    | keyword s label value =>
      rw [tightArguments, Bool.and_eq_true] at h
      rw [Spelled] at hs
      have hvalue := cut_of_isTight value hs.1.2 h.1
      have hes := items_of_tightArguments es hs.2 h.2
      cases label with
      | none =>
        exact .cons (item_marked (o := .doubleStar) nofun hvalue (by decide) (fun _ => by decide)
          (by simp [written, unpacked, Operator.symbol])) hes
      | some label => exact .cons (item_keyword (hs.1.1 label rfl) hvalue) hes
    | starred s value =>
      simp only [tightArguments, Bool.and_eq_true, Bool.not_eq_true', Spelled] at hs h
      obtain ⟨⟨⟨hvalue, -⟩, hstar⟩, hes⟩ := h
      exact .cons (item_marked (o := .star) nofun (cut_of_isTight value hs.1 hvalue) (by decide)
        (fun heq => absurd (hstar.symm.trans heq) nofun) (by simp [written, Operator.symbol]))
        (items_of_tightArguments es hs.2 hes)
    | _ =>
      rw [tightArguments, Bool.and_eq_true, Bool.and_eq_true] at h
      · exact .cons (cut_of_isTight _ hs.1 h.1.1).item (items_of_tightArguments es hs.2 h.2)
      all_goals exact nofun

theorem items_of_tightEntries : ∀ es : List Entry, spelledEntries es → tightEntries es = true →
    List.Forall₂ Item (writtenEntries es) (wordsEntries es)
  | [], _, _ => .nil
  | .pair key value :: es, hs, h => by
    simp only [spelledEntries, tightEntries, Bool.and_eq_true] at hs h
    exact .cons (item_pair (cut_of_isTight key hs.1.1 h.1.1) (cut_of_isTight value hs.1.2 h.1.2))
      (items_of_tightEntries es hs.2 h.2)
  | .unpack value :: es, hs, h => by
    simp only [spelledEntries, tightEntries, Bool.and_eq_true] at hs h
    exact .cons (item_marked (o := .doubleStar) nofun (cut_of_isTight value hs.1 h.1.1) (by decide)
      (fun _ => by decide) (by simp [unpacked, Operator.symbol])) (items_of_tightEntries es hs.2 h.2)

theorem cuts_of_tightConditions : ∀ es : List Expr, spelledList es → tightConditions es = true →
    ∀ rest, Gap rest → Cuts (writtenConditions es).toList (wordsConditions es) rest
  | [], _, _, rest, _ => Cuts.nil rest
  | e :: es, hs, h, rest, hrest => by
    simp only [spelledList, tightConditions, Bool.and_eq_true] at hs h
    exact cuts_conditions_cons (cut_of_isTight e hs.1 h.1.1.1) hrest
      (cuts_of_tightConditions es hs.2 h.2 rest hrest)

theorem cuts_of_tightClauses : ∀ cs : List Clause, spelledClauses cs → tightClauses cs = true →
    ∀ rest, Gap rest → Cuts (writtenClauses cs).toList (wordsClauses cs) rest
  | [], _, _, rest, _ => Cuts.nil rest
  | .mk target iter conditions isAsync :: cs, hs, h, rest, hrest => by
    simp only [spelledClauses, tightClauses, Bool.and_eq_true] at hs h
    obtain ⟨⟨⟨⟨⟨htarget, -⟩, -⟩, ⟨⟨hiter, -⟩, -⟩⟩, hconditions⟩, hcs⟩ := h
    obtain ⟨⟨hst, hsi, hsc⟩, hss⟩ := hs
    exact cuts_clauses_cons isAsync (cut_of_isTight target hst htarget) (cut_of_isTight iter hsi hiter) hrest
      (cuts_of_tightConditions conditions hsc hconditions) (cuts_of_tightClauses cs hss hcs rest hrest)

theorem items_of_tightParameters : ∀ ps : List Parameter, spelledParameters ps → tightParameters ps = true →
    List.Forall₂ Item (writtenParameters ps) (wordsParameters ps)
  | [], _, _ => .nil
  | .mk s kind id hint standard :: ps, hs, h => by
    simp only [spelledParameters, tightParameters, Bool.and_eq_true, Option.isNone_iff_eq_none] at hs h
    obtain ⟨⟨rfl, hstandard⟩, hps⟩ := h
    obtain ⟨⟨hid, -, hss⟩, hsp⟩ := hs
    have hitem := @item_parameter kind id hid standard (cut_of_tightOption standard hss hstandard)
    cases standard with
    | none => exact .cons (hitem (by simp [writtenStandard])) (items_of_tightParameters ps hsp hps)
    | some e => exact .cons (hitem (by simp [writtenStandard])) (items_of_tightParameters ps hsp hps)

end

/-! ## Texts -/

/-- A text with no white space at its ends is its own trimmed form. -/
theorem trimmed_eq {text : String} {c : Char} {cs : List Char} (hfirst : text.toList = c :: cs)
    (hc : Text.isBlank c = false) (hlast : Closes text) : Text.trimmed text = text := by
  have hstart : Text.trimStart text.toList = text.toList := by
    rw [Text.trimStart, hfirst, List.dropWhile_cons_of_neg (by simp [hc])]
  have hend : Text.trimEnd text.toList = text.toList := by
    obtain ⟨d, hd, hblank⟩ := hlast
    obtain ⟨ds, hds⟩ := List.getLast?_eq_some_iff.mp hd
    rw [Text.trimEnd, hds, List.reverse_append, List.reverse_singleton, List.singleton_append,
      List.dropWhile_cons_of_neg (by simp [hblank]), List.reverse_cons, List.reverse_reverse]
  rw [Text.trimmed, Text.trim, hstart, hend, String.ofList_toList]

/-- A written form has no white space at its ends. -/
theorem trimmed_written {e : Expr} (hs : e.Spelled) : Text.trimmed e.written = e.written := by
  obtain ⟨c, cs, htext, hc, -⟩ := begins_written e hs
  exact trimmed_eq htext (isBlank_of_opensWritten hc) (closes_written e hs)

/-- A text that is cut into the words of an expression is read as the expression. -/
theorem ofText_of_stands {text : String} {c : Char} {cs : List Char} {ws : List Word} {e : Expr}
    (htext : text.toList = c :: cs) (hc : Lexeme.startsToken c = true) (hblank : Text.isBlank c = false)
    (hlast : Closes text) (hcuts : Cuts (c :: cs) ws []) (h : Reading.Stands ws e) :
    ∃ e', Expr.ofText text = .ok e' ∧ e'.bare = e.bare := by
  obtain ⟨tokens, htokens, hwords⟩ := tokenize_words hc hcuts
  obtain ⟨e', hread, hbare⟩ := Reading.ofTokens_of_stands h hcuts.noLayout hwords
  refine ⟨e', ?_, hbare⟩
  rw [ofText, trimmed_eq htext hblank hlast, ← String.ofList_toList (s := text), htext, htokens]
  exact hread

/-- A tight expression is read from its written form. -/
theorem ofText_written {e : Expr} (hs : e.Spelled) (ht : e.isTight = true) :
    ∃ e', Expr.ofText e.written = .ok e' ∧ e'.bare = e.bare := by
  have hcut := cut_of_isTight e hs ht
  obtain ⟨c, cs, htext, hc, -⟩ := hcut.begins
  have hcuts : Cuts e.written.toList e.words [] := hcut.inGap nofun
  rw [htext] at hcuts
  exact ofText_of_stands htext (startsToken_of_opensWritten hc) (isBlank_of_opensWritten hc) (closes_written e hs)
    hcuts (Reading.stands_of_phrase (Reading.phrase_of_isTight e ht))

example : (Expr.ofText "x if not y in z else -w").toOption.map Expr.written = some "x if not y in z else -w" := by
  decide +kernel

/-- What is read from a text is read again from its written form, if it is tight. -/
theorem rendering_faithful {text : String} {e : Expr} (h : Expr.ofText text = .ok e) (ht : e.isTight = true) :
    ∃ e', Expr.ofText e.written = .ok e' ∧ e'.bare = e.bare :=
  ofText_written (Reading.ofText_shows h).1 ht

/-- Parentheses that stay, and parentheses that are not needed. -/
def tightText : String := "(f)(a.b[-1:], (x, y), *z) ** -(c ** d) if not (p in q) else (lambda u, *v: {k: v for k in w})"

theorem exists_tight : ∃ e, Expr.ofText tightText = .ok e ∧ e.isTight = true ∧
    e.written = "f(a.b[-1:], (x, y), *z) ** -c ** d if not p in q else lambda u, *v: {k: v for k in w}" := by
  have hread : (Expr.ofText tightText).toOption.any (fun e => e.isTight && e.written ==
      "f(a.b[-1:], (x, y), *z) ** -c ** d if not p in q else lambda u, *v: {k: v for k in w}") := by decide +kernel
  cases h : Expr.ofText tightText with
  | ok e =>
    rw [h] at hread
    simpa [Except.toOption] using hread
  | error e =>
    rw [h] at hread
    exact absurd hread nofun

theorem rendering_faithful_tight : ∃ e, Expr.ofText tightText = .ok e ∧ e.isTight = true ∧
    ∃ e', Expr.ofText e.written = .ok e' ∧ e'.bare = e.bare := by
  obtain ⟨e, hread, htight, -⟩ := exists_tight
  exact ⟨e, hread, htight, rendering_faithful hread htight⟩

/-- The outermost operator of an operation. -/
def operator? : Expr → Option BinaryOp
  | binary _ _ op _ => some op
  | _ => none

theorem operator?_bare (e : Expr) : e.bare.operator? = e.operator? := by
  cases e with
  | subscript s value index => cases index <;> rfl
  | _ => rfl

/-- A sum that is multiplied is written without parentheses, and read again as a sum. -/
theorem rendering_unfaithful : ¬ ∀ text e, Expr.ofText text = .ok e →
    ∃ e', Expr.ofText e.written = .ok e' ∧ e'.bare = e.bare := by
  have hread : (Expr.ofText "(a + b) * c").toOption.any (fun e => e.operator? == some .multiply &&
      (Expr.ofText e.written).toOption.any (fun e' => e'.operator? == some .add)) := by decide +kernel
  intro hall
  cases h : Expr.ofText "(a + b) * c" with
  | error e =>
    rw [h] at hread
    exact absurd hread nofun
  | ok e =>
    obtain ⟨e', hread', hbare⟩ := hall _ e h
    have heq : e'.operator? = e.operator? := by rw [← operator?_bare, hbare, operator?_bare]
    simp only [h, hread', Except.toOption, heq, Option.any_some, Bool.and_eq_true, beq_iff_eq] at hread
    exact absurd (hread.1.symm.trans hread.2) (by decide)

end Expr

end TypeWatch
