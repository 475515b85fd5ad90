import TypeWatch.Proofs.Reading.RoundTrip
import TypeWatch.Proofs.Syntax.Grouped

/-! # Trees read from their words with parentheses

A tree of operators is read from its words with the parentheses that it needs (`phrase_grouped`), hence from
every text in which blanks stand between these words (`ofText_grouped`). -/
namespace TypeWatch
set_option autoImplicit false

/-! ## Open sides -/

namespace Expr

/-- The rank of the outermost operator if it is open on the left side. -/
def leftHold : Expr → Nat
  | binary _ _ op _ => op.binds.rank
  | conditional _ _ _ _ => Power.conditional.rank
  | _ => Power.trailer.rank

/-- The rank at which the outermost operator is open on the right side. -/
def rightHold : Expr → Nat
  | binary _ _ op _ => (Reading.rightLevel op).rank
  | unary _ op _ => op.binds.rank
  | await _ _ => Power.await.rank
  | conditional _ _ _ _ | lambda _ _ _ => Power.named.rank
  | _ => Power.trailer.rank

variable {e : Expr} {rank : Nat}

theorem named_lt_leftHold (e : Expr) : Power.named.rank < e.leftHold := by
  cases e with
  | binary s left op right => cases op <;> exact of_decide_eq_true rfl
  | _ => exact of_decide_eq_true rfl

theorem named_le_rightHold (e : Expr) : Power.named.rank ≤ e.rightHold := by
  cases e with
  | binary s left op right => cases op <;> exact of_decide_eq_true rfl
  | unary s op operand => cases op <;> exact of_decide_eq_true rfl
  | _ => exact of_decide_eq_true rfl

/-- An operator that binds as tightly as a place demands holds what is on its left. -/
theorem le_leftHold (h : rank ≤ e.level.rank) : rank ≤ e.leftHold := by
  refine Nat.le_trans h ?_
  cases e with
  | unary s op operand => cases op <;> exact of_decide_eq_true rfl
  | binary => exact Nat.le_refl _
  | _ => exact of_decide_eq_true rfl

/-- The operators that stand before their operand have ranks of their own. -/
theorem lt_leftHold (h : rank ≤ e.level.rank)
    (hrank : rank = Power.negation.rank ∨ rank = Power.sign.rank ∨ rank = Power.await.rank) : rank < e.leftHold := by
  have htrailer : rank < Power.trailer.rank := by
    rcases hrank with rfl | rfl | rfl <;> decide
  cases e with
  | binary s left op right =>
    refine Nat.lt_of_le_of_ne h ?_
    rintro rfl
    revert hrank
    cases op <;> exact of_decide_eq_true rfl
  | conditional s test body orelse =>
    have hle : rank ≤ Power.conditional.rank := h
    rcases hrank with rfl | rfl | rfl <;> exact absurd hle (by decide)
  | _ => exact htrailer

/-- An operator that binds as tightly as a place demands holds what is on its right. After a power stands an
operand with a sign, which binds less tightly. -/
theorem le_rightHold (h : rank ≤ e.level.rank) (hopen : Power.conditional.rank < e.level.rank)
    (hrank : rank ≤ Power.sign.rank ∨ Power.await.rank ≤ rank) : rank ≤ e.rightHold := by
  cases e with
  | conditional => exact absurd hopen (Nat.lt_irrefl _)
  | lambda => exact absurd hopen (Nat.lt_irrefl _)
  | unary => exact h
  | await => exact h
  | binary s left op right =>
    have hle : rank ≤ op.binds.rank := h
    by_cases hop : op = .power
    · subst hop
      rcases hrank with hrank | hrank
      · exact hrank
      · exact absurd (Nat.le_trans hrank hle) (by decide)
    · rwa [rightHold, Reading.rightLevel, if_neg hop]
  | _ => exact h

/-! ## First words -/

/-- Whether words do not begin with a star, nor with a negation if they stand at a tighter place. -/
def OpensAt (rank : Nat) (ws : List Word) : Prop :=
  ∃ w rest, ws = w :: rest ∧ w.1 ≠ .op .star ∧ (Power.negation.rank < rank → w.1 ≠ .word .kwNot)

theorem OpensAt.append {ws : List Word} (h : OpensAt rank ws) (vs : List Word) : OpensAt rank (ws ++ vs) := by
  obtain ⟨w, rest, rfl, hw⟩ := h
  exact ⟨w, rest ++ vs, rfl, hw⟩

theorem OpensAt.mono {rank' : Nat} {ws : List Word} (h : OpensAt rank ws) (hle : rank' ≤ rank) :
    OpensAt rank' ws := by
  obtain ⟨w, rest, rfl, hstar, hnot⟩ := h
  exact ⟨w, rest, rfl, hstar, fun hlt => hnot (Nat.lt_of_lt_of_le hlt hle)⟩

theorem opensAt_held (h : OpensAt e.level.rank e.grouped) (rank : Nat) : OpensAt rank (held rank e e.grouped) := by
  unfold held
  split
  · exact ⟨_, _, rfl, nofun, fun _ => nofun⟩
  · rename_i hle
    exact h.mono (Nat.le_of_not_lt hle)

/-- The first word is that of the leftmost operand, or of an operator before it. -/
theorem opensAt_grouped : ∀ e : Expr, e.Operative → OpensAt e.level.rank e.grouped
  | name _ _, _ => ⟨_, _, rfl, by rintro ⟨⟩, fun _ => by rintro ⟨⟩⟩
  | member _ value _, h => by
    rw [Operative] at h
    exact (opensAt_held (opensAt_grouped value h.1) _).append _
  | subscript _ value _, h => by
    rw [Operative] at h
    exact (opensAt_held (opensAt_grouped value h.1) _).append _
  | call _ callee _, h => by
    rw [Operative] at h
    exact (opensAt_held (opensAt_grouped callee h.1) _).append _
  | binary _ left op _, h => by
    rw [Operative] at h
    refine ((opensAt_held (opensAt_grouped left h.1) op.leftRank).append _).mono ?_
    cases op <;> exact of_decide_eq_true rfl
  | unary _ op _, _ => by
    cases op
    case not => exact ⟨_, _, rfl, by rintro ⟨⟩, fun hlt => absurd hlt (Nat.lt_irrefl _)⟩
    all_goals exact ⟨_, _, rfl, by rintro ⟨⟩, fun _ => by rintro ⟨⟩⟩
  | await _ _, _ => ⟨_, _, rfl, by rintro ⟨⟩, fun _ => by rintro ⟨⟩⟩
  | conditional _ _ body _, h => by
    rw [Operative] at h
    refine ((opensAt_held (opensAt_grouped body h.2.1) Power.disjunction.rank).append _).mono ?_
    exact of_decide_eq_true rfl
  | lambda _ _ _, _ => ⟨_, _, rfl, by rintro ⟨⟩, fun _ => by rintro ⟨⟩⟩
  | constant .., h | slice .., h | tuple .., h | list .., h | set .., h | dict .., h | keyword .., h
  | starred .., h | comprehension .., h | named .., h | yield .., h => by
    rw [Operative] at h
    · exact h.elim
    all_goals intros; contradiction

end Expr

namespace Reading

/-! ## Operands -/

theorem Phrase.mono {ws : List Word} {e : Expr} {head head' tail tail' : Nat} (h : Phrase ws e head tail)
    (hhead : head' ≤ head) (htail : tail' ≤ tail) : Phrase ws e head' tail' where
  opens := h.opens
  reads level c next more P hlevel hnext hc hgoes :=
    h.reads level c next more P (Nat.lt_of_lt_of_le hlevel hhead) (hnext.mono htail) hc hgoes

variable {e : Expr}

theorem stands_grouped (h : Phrase e.grouped e e.leftHold e.rightHold) : Stands e.grouped e :=
  ⟨e.leftHold, e.rightHold, e.named_lt_leftHold, h⟩

/-- An operand holds what its place demands, with parentheses or without. -/
theorem phrase_held (h : Phrase e.grouped e e.leftHold e.rightHold) {rank head tail : Nat}
    (hhead : rank ≤ e.level.rank → head ≤ e.leftHold) (htail : rank ≤ e.level.rank → tail ≤ e.rightHold)
    (hle : head ≤ closed) (hle' : tail ≤ closed) : Phrase (Expr.held rank e e.grouped) e head tail := by
  unfold Expr.held
  split
  · exact (phrase_group (stands_grouped h).inner).mono hle hle'
  · rename_i hrank
    have hlevel := Nat.le_of_not_lt hrank
    exact h.mono (hhead hlevel) (htail hlevel)

/-- An operand before a dot, a bracket or a parenthesis. -/
theorem phrase_heldTrailer (h : Phrase e.grouped e e.leftHold e.rightHold) :
    Phrase (Expr.held Power.trailer.rank e e.grouped) e closed closed := by
  refine phrase_held h Expr.le_leftHold (fun hlevel => ?_) (Nat.le_refl _) (Nat.le_refl _)
  exact Expr.le_rightHold hlevel (Nat.lt_of_lt_of_le (by decide) hlevel) (Or.inr (by decide))

/-- The operand of an operator that stands before it. -/
theorem phrase_heldPrefix (h : Phrase e.grouped e e.leftHold e.rightHold) {rank : Nat}
    (hrank : rank = Power.negation.rank ∨ rank = Power.sign.rank ∨ rank = Power.await.rank) :
    Phrase (Expr.held rank e e.grouped) e (rank + 1) rank := by
  refine phrase_held h (fun hlevel => Expr.lt_leftHold hlevel hrank) (fun hlevel => ?_) ?_ ?_
  · refine Expr.le_rightHold hlevel (Nat.lt_of_lt_of_le ?_ hlevel) ?_
    · rcases hrank with rfl | rfl | rfl <;> decide
    · rcases hrank with rfl | rfl | rfl <;> decide
  · rcases hrank with rfl | rfl | rfl <;> decide
  · rcases hrank with rfl | rfl | rfl <;> decide

theorem phrase_heldLeft (h : Phrase e.grouped e e.leftHold e.rightHold) (op : BinaryOp) :
    Phrase (Expr.held op.leftRank e e.grouped) e op.binds.rank op.binds.rank := by
  have hle : op.binds.rank ≤ op.leftRank := by cases op <;> decide
  have hclosed : op.binds.rank ≤ closed := by cases op <;> decide
  refine phrase_held h (fun hlevel => Expr.le_leftHold (Nat.le_trans hle hlevel)) (fun hlevel => ?_) hclosed hclosed
  refine Nat.le_trans hle (Expr.le_rightHold hlevel (Nat.lt_of_lt_of_le ?_ hlevel) ?_)
  · cases op <;> decide
  · cases op <;> decide

theorem phrase_heldRight (h : Phrase e.grouped e e.leftHold e.rightHold) (op : BinaryOp) :
    Phrase (Expr.held op.rightRank e e.grouped) e ((rightLevel op).rank + 1) (rightLevel op).rank := by
  have hle : (rightLevel op).rank ≤ op.rightRank := by cases op <;> decide
  refine phrase_held h (fun hlevel => ?_) (fun hlevel => ?_) ?_ ?_
  · by_cases hop : op = .power
    · subst hop
      exact Expr.lt_leftHold hlevel (Or.inr (Or.inl rfl))
    · refine Expr.le_leftHold (Nat.le_trans ?_ hlevel)
      rw [rightLevel, BinaryOp.rightRank, if_neg hop, if_neg hop]
  · refine Expr.le_rightHold (Nat.le_trans hle hlevel) (Nat.lt_of_lt_of_le ?_ hlevel) (Or.inl ?_)
    · cases op <;> decide
    · cases op <;> decide
  · cases op <;> decide
  · cases op <;> decide

/-! ## Trees -/

mutual

/-- A tree of operators is read from its words, wherever the level and the next word let it. -/
theorem phrase_grouped : ∀ e : Expr, e.Operative → Phrase e.grouped e e.leftHold e.rightHold
  | .name s id, _ => phrase_name s id
  | .member s value attr, h => by
    rw [Expr.Operative] at h
    exact phrase_member s attr (phrase_heldTrailer (phrase_grouped value h.1))
  | .subscript s value index, h => by
    rw [Expr.Operative] at h
    have hindex := stands_grouped (phrase_grouped index h.2)
    exact phrase_subscript s (phrase_heldTrailer (phrase_grouped value h.1)) (indicesOn_one (.expr hindex))
  | .call s callee arguments, h => by
    rw [Expr.Operative] at h
    exact phrase_call s (phrase_heldTrailer (phrase_grouped callee h.1)) (stands_groupedList arguments h.2)
  | .binary s left op right, h => by
    rw [Expr.Operative] at h
    have hl := phrase_heldLeft (phrase_grouped left h.1) op
    have hr := phrase_heldRight (phrase_grouped right h.2) op
    have hnot : op = .same → ∀ w ∈ (Expr.held op.rightRank right right.grouped).head?, w.1 ≠ .word .kwNot := by
      rintro rfl w hw
      obtain ⟨v, rest, hwords, -, hnot⟩ := Expr.opensAt_held (Expr.opensAt_grouped right h.2) BinaryOp.same.rightRank
      rw [hwords] at hw
      obtain rfl := Option.some.inj hw
      exact hnot (by decide)
    have hall := phrase_binary s op hl (Nat.le_refl _) hr (Nat.lt_succ_self _) hnot
    rwa [Nat.min_self, Nat.min_self] at hall
  | .unary s op operand, h => by
    rw [Expr.Operative] at h
    have hrank : op.binds.rank = Power.negation.rank ∨ op.binds.rank = Power.sign.rank ∨
        op.binds.rank = Power.await.rank := by cases op <;> decide
    have hall := phrase_unary s op (phrase_heldPrefix (phrase_grouped operand h) hrank) (Nat.lt_succ_self _)
    rwa [Nat.min_self] at hall
  | .await s value, h => by
    rw [Expr.Operative] at h
    have hvalue := phrase_heldPrefix (phrase_grouped value h) (Or.inr (Or.inr rfl))
    exact phrase_await s hvalue (Nat.lt_succ_self _)
  | .lambda s parameters body, h => by
    rw [Expr.Operative] at h
    obtain ⟨rfl, hbody⟩ := h
    have hall := phrase_lambda s .nil rfl (phrase_grouped body hbody) body.named_lt_leftHold
    rwa [Nat.min_eq_left body.named_le_rightHold] at hall
  | .conditional s test body orelse, h => by
    rw [Expr.Operative] at h
    obtain ⟨htest, hbody, horelse⟩ := h
    have hl : Phrase (Expr.held Power.disjunction.rank body body.grouped) body Power.conditional.rank
        Power.conditional.rank := by
      have hle : Power.conditional.rank ≤ Power.disjunction.rank := by decide
      refine phrase_held (phrase_grouped body hbody) (fun hlevel => Expr.le_leftHold (Nat.le_trans hle hlevel))
        (fun hlevel => ?_) (by decide) (by decide)
      exact Expr.le_rightHold (Nat.le_trans hle hlevel) (Nat.lt_of_lt_of_le (by decide) hlevel) (Or.inl (by decide))
    have ht : Phrase (Expr.held Power.disjunction.rank test test.grouped) test Power.disjunction.rank 0 :=
      phrase_held (phrase_grouped test htest) Expr.le_leftHold (fun _ => Nat.zero_le _) (by decide) (by decide)
    have hall := phrase_conditional s hl (Nat.le_refl _) ht (by decide) (phrase_grouped orelse horelse)
      orelse.named_lt_leftHold
    rwa [Nat.min_self, Nat.min_eq_left orelse.named_le_rightHold] at hall
  | .constant .., h | .slice .., h | .tuple .., h | .list .., h | .set .., h | .dict .., h | .keyword .., h
  | .starred .., h | .comprehension .., h | .named .., h | .yield .., h => by
    rw [Expr.Operative] at h
    · exact h.elim
    all_goals exact nofun

theorem stands_groupedList : ∀ es : List Expr, Expr.operativeList es →
    List.Forall₂ ArgumentStands (Expr.groupedList es) es
  | [], _ => .nil
  | e :: es, h => by
    rw [Expr.operativeList] at h
    refine .cons (.plain (stands_grouped (phrase_grouped e h.1)) ?_) (stands_groupedList es h.2)
    obtain ⟨v, rest, hwords, hstar, -⟩ := Expr.opensAt_grouped e h.1
    rw [hwords]
    intro w hw
    obtain rfl := Option.some.inj hw
    exact hstar

end

end Reading

/-! ## Texts -/

namespace Expr

/-- A tree of operators is read from each text that has its words, with the parentheses that it needs, set
apart by blanks. -/
theorem ofText_grouped {e : Expr} (he : e.Operative) {text : String} (htext : Spaced e.grouped text.toList) :
    ∃ e', Expr.ofText text = .ok e' ∧ e'.bare = e.bare := by
  have hwords := unquoted_grouped e he
  obtain ⟨c, cs, hchars, hc, hblank⟩ := htext.opens hwords
  have hlast := htext.closes hwords
  have hcuts := htext.cuts hwords
  rw [String.ofList_toList] at hlast
  rw [hchars] at hcuts
  exact ofText_of_stands hchars hc hblank hlast hcuts (Reading.stands_grouped (Reading.phrase_grouped e he))

/-- A conditional in which a sum is multiplied by a power of a negated name. -/
def groupedTree : Expr :=
  let named (id : String) : Expr := name default id
  let product := binary default (binary default (named "a") .add (named "b")) .multiply
    (binary default (named "c") .power (unary default .negate (named "d")))
  let called := call default (member default (named "f") "g") [subscript default (named "h") (named "i")]
  conditional default (unary default .not (named "p")) (binary default product .notIn called)
    (lambda default [] (binary default (await default (named "q")) .or (named "r")))

def groupedText : String := "( a + b ) * c ** - d not in f . g ( h [ i ] ) if not p else lambda : await q or r"

theorem operative_groupedTree : groupedTree.Operative := by
  have hletter {id : String} {c : Char} (hid : id.toList = [c]) (hopen : Text.opensName c = true)
      (hfree : Keyword.ofSpelling? id = none) : IsName id :=
    ⟨⟨c, [], hid, hopen⟩, by simp [hid, Text.continuesName_of_opensName c hopen], hfree⟩
  simp only [groupedTree, Operative, operativeList, and_true, true_and]
  refine ⟨?_, ⟨⟨⟨?_, ?_⟩, ?_, ?_⟩, ⟨?_, ?_⟩, ?_, ?_⟩, ?_, ?_⟩
  all_goals exact hletter rfl (by decide) (by decide)

theorem spaced_groupedText : Spaced groupedTree.grouped groupedText.toList := by
  have hwords : groupedText.toList = List.intercalate [' '] (groupedTree.grouped.map fun w => w.2.toList) := by
    decide +kernel
  rw [hwords]
  exact Spaced.intercalate (List.cons_ne_nil _ _)

theorem ofText_groupedText : groupedTree.Operative ∧ Spaced groupedTree.grouped groupedText.toList ∧
    ∃ e', Expr.ofText groupedText = .ok e' ∧ e'.bare = groupedTree.bare :=
  ⟨operative_groupedTree, spaced_groupedText, ofText_grouped operative_groupedTree spaced_groupedText⟩

end Expr
end TypeWatch
