import TypeWatch.Proofs.Reading.Expr
import TypeWatch.Proofs.Reading.Lone

/-! # Tuples without parentheses

A tuple that stands in parentheses begins before its first element, and one that stands in none begins with it. So a
list after commas is told from what is one expression by the places of its parts (`isOpenTuple_iff`). -/
namespace TypeWatch.Reading
set_option autoImplicit false

/-- What is said of a reader of expressions: it reads no tuple without parentheses. -/
def Encloses {n : Nat} (sub : Below n) : Prop :=
  ∀ level c (h : c.size < n), c.Sound → (sub level c h).Gives fun e _ => e.isOpenTuple = false

section Readers

variable {n : Nat} {sub : Below n} {c : Cursor} {h : c.size < n}

/-! ## Displays -/

theorem parenthesized_encloses (hsub : Encloses sub) (hreads : ReadsExprs sub) (hc : c.Sound) {start : Position}
    (hstart : start < c.lastEnd) : (parenthesized sub start c h).Gives fun e _ => e.isOpenTuple = false := by
  unfold parenthesized
  split
  · exact gives_ok rfl
  · intro a ha
    obtain ⟨⟨first, c1, h1⟩, hfirst, ha⟩ := exists_of_bind_ok ha
    have hlt : start < first.span.start :=
      Position.lt_of_lt_of_le hstart (hc.le_of_ahead (hreads .least c h _ hfirst).ahead)
    have hne : start ≠ first.span.start := by
      rintro rfl
      exact Position.lt_irrefl _ hlt
    obtain ⟨⟨rest, c2, h2⟩, -, ha⟩ := exists_of_bind_ok ha
    dsimp only at ha
    split at ha
    · obtain rfl := Except.ok.inj ha
      rfl
    · obtain rfl := Except.ok.inj ha
      exact hsub .least c h hc ⟨first, c1, h1⟩ hfirst
    · obtain rfl := Except.ok.inj ha
      exact decide_eq_false hne

theorem listDisplay_encloses (start : Position) :
    (listDisplay sub start c h).Gives fun e _ => e.isOpenTuple = false := by
  unfold listDisplay
  split
  · exact gives_ok rfl
  · apply gives_bind_check
    intro first
    apply gives_bind_check
    rintro ⟨rest, c2, h2⟩
    cases rest <;> exact gives_ok rfl

theorem dictRest_encloses (start : Position) (first : Entry) :
    (dictRest sub start first c h).Gives fun e _ => e.isOpenTuple = false :=
  gives_bind_check fun _ => gives_bind_check fun _ => gives_ok rfl

theorem dictAfterKey_encloses (start : Position) (key : Expr) :
    (dictAfterKey sub start key c h).Gives fun e _ => e.isOpenTuple = false := by
  apply gives_bind_check
  rintro ⟨value, c1, h1⟩
  dsimp only
  split
  · exact gives_bind_check fun _ => gives_bind_check fun _ => gives_ok rfl
  · exact Read.gives_since (dictRest_encloses start _) _

theorem braceDisplay_encloses (start : Position) :
    (braceDisplay sub start c h).Gives fun e _ => e.isOpenTuple = false := by
  unfold braceDisplay
  split
  · exact gives_ok rfl
  · split
    · exact gives_bind_check fun _ => Read.gives_since (dictRest_encloses start _) _
    · apply gives_bind_check
      rintro ⟨first, c1, h1⟩
      dsimp only
      split
      · exact Read.gives_since (dictAfterKey_encloses start _) _
      · apply gives_bind_check
        rintro ⟨rest, c2, h2⟩
        cases rest <;> exact gives_ok rfl

/-! ## Operands -/

theorem yielded_encloses (start : Position) : (yielded sub start c h).Gives fun e _ => e.isOpenTuple = false := by
  unfold yielded
  split
  · exact gives_bind_check fun _ => gives_ok rfl
  · split
    · exact gives_bind_check fun _ => gives_ok rfl
    · exact gives_ok rfl

theorem operandAfter_encloses (hsub : Encloses sub) (hreads : ReadsExprs sub) {t : Token} (hc : c.Sound)
    (hstart : t.kind.isLayout = false → t.span.start < c.lastEnd) :
    (operandAfter sub t c h).Gives fun e _ => e.isOpenTuple = false := by
  unfold operandAfter
  dsimp only
  split
  case h_10 hkind =>
    exact Read.gives_moved (parenthesized_encloses hsub hreads hc (hstart (by rw [hkind]; rfl)))
  case h_11 => exact Read.gives_moved (listDisplay_encloses _)
  case h_12 => exact Read.gives_moved (braceDisplay_encloses _)
  case h_13 | h_14 => exact gives_bind_check fun _ => gives_ok rfl
  case h_15 =>
    exact Read.gives_moved (gives_bind_check fun _ => gives_bind_check fun _ => gives_bind_check fun _ => gives_ok rfl)
  case h_16 => exact yielded_encloses _
  case h_17 =>
    split
    · exact gives_bind_check fun _ => gives_ok rfl
    · exact gives_error _
  all_goals exact gives_ok rfl

theorem operand_encloses {c : Cursor} (hsub : Encloses sub) (hreads : ReadsExprs sub) (hc : c.Sound) (h : c.size ≤ n) :
    (operand sub c h).Gives fun e _ => e.isOpenTuple = false := by
  unfold operand
  split
  · exact gives_unexpected c
  · rename_i t c1 h1 hnext
    have hpass := Cursor.next?_passes hnext
    exact MayRead.gives_since (operandAfter_encloses hsub hreads (hpass.reaches.sound hc) fun hno =>
      (hpass.reads hno).behind hc) h1

/-! ## Operators -/

theorem binary_encloses (left : Expr) (op : BinaryOp) :
    (binary sub left op c h).Gives fun e _ => e.isOpenTuple = false := gives_bind_check fun _ => gives_ok rfl

theorem extendAfter_encloses (left : Expr) (t : Token) :
    (extendAfter sub left t c h).Gives fun e _ => e.isOpenTuple = false := by
  unfold extendAfter
  split
  case h_1 =>
    unfold named
    split
    · exact gives_bind_check fun _ => gives_ok rfl
    · exact gives_error _
  case h_2 => exact gives_bind_check fun _ => gives_bind_check fun _ => gives_bind_check fun _ => gives_ok rfl
  case h_3 =>
    unfold identity
    split
    · exact Read.gives_since (binary_encloses left _) _
    · exact binary_encloses left _
  case h_4 => exact gives_bind_check fun _ => Read.gives_since (binary_encloses left _) _
  case h_5 => exact gives_bind_check fun _ => gives_ok rfl
  case h_6 | h_7 => exact gives_bind_check fun _ => gives_bind_check fun _ => gives_ok rfl
  case h_8 =>
    split
    · exact binary_encloses left _
    · exact gives_error _

theorem extend_encloses (level : Power) {left : Expr} (hleft : left.isOpenTuple = false) (c : Cursor)
    (h : c.size < n) : (extend sub level left c h).Gives fun e _ => e.isOpenTuple = false := by
  rw [extend]
  split
  · split
    · exact gives_ok hleft
    · rename_i t c1 h1 hnext
      refine Read.gives_bind (Read.gives_since (extendAfter_encloses left t) h1) ?_
      intro longer c2 h2 hlonger
      refine Read.gives_bind (MayRead.gives_since (extend_encloses level hlonger c2 _) h2) ?_
      exact fun e d h3 he => gives_ok he
  · exact gives_ok hleft
termination_by c.size

end Readers

/-! ## Expressions -/

/-- One expression is no tuple without parentheses. -/
theorem expr_encloses (level : Power) (c : Cursor) (hc : c.Sound) :
    (expr level c).Gives fun e _ => e.isOpenTuple = false := by
  have hsub : Encloses (n := c.size) fun l c' _ => expr l c' := fun l c' _ hc' => expr_encloses l c' hc'
  rw [expr]
  refine Read.gives_bind (operand_encloses hsub (readsExprs_exprBelow _) hc _) ?_
  exact fun left c1 h1 hleft => MayRead.gives_since (extend_encloses level hleft c1 _) h1
termination_by c.size

/-- A text is a list after commas if its first expression ends before a comma, and one expression if it ends at the
end of the text. -/
theorem isOpenTuple_iff {tokens : List Token} {e : Expr} (hc : (Cursor.ofTokens tokens).Sound)
    (h : Expr.ofTokens tokens = .ok e) : ∃ a, expr .least (Cursor.ofTokens tokens) = .ok a ∧
      (e.isOpenTuple = true ↔ a.next.kind = .op .comma) ∧ (e.isOpenTuple = false ↔ a.value = e) := by
  obtain ⟨⟨e', c1, h1⟩, hlist, hend⟩ := exists_of_bind_ok h
  obtain rfl : e' = e := by
    dsimp only at hend
    split at hend
    · exact Except.ok.inj hend
    · cases hend
  obtain ⟨⟨first, c2, h2⟩, hfirst, hlist⟩ := exists_of_bind_ok hlist
  refine ⟨⟨first, c2, h2⟩, hfirst, ?_⟩
  have hclosed : first.isOpenTuple = false := expr_encloses .least _ hc _ hfirst
  dsimp only at hlist
  split at hlist
  · rename_i hcomma
    obtain ⟨⟨others, c3, h3⟩, -, hlist⟩ := exists_of_bind_ok hlist
    obtain ⟨rfl, rfl⟩ := Advanced.mk.inj (Except.ok.inj hlist)
    have hopen : (Expr.tuple (c3.spanFrom first.span.start) (first :: others)).isOpenTuple = true := decide_eq_true rfl
    have hne : first ≠ .tuple (c3.spanFrom first.span.start) (first :: others) := by
      intro heq
      rw [← heq, hclosed] at hopen
      cases hopen
    simp only [hopen, hcomma, hne, Bool.true_eq_false, and_self]
  · rename_i hcomma
    obtain ⟨rfl, rfl⟩ := Advanced.mk.inj (Except.ok.inj hlist)
    simp [hclosed, hcomma]

end TypeWatch.Reading
