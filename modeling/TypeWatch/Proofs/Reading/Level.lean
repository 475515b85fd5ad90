import TypeWatch.Proofs.Reading.Matched
import TypeWatch.Reading.Expr

/-! # How far expressions go

An expression that is read where every operator belongs to it is read the same way at a higher level, or it ends
earlier there: before an operator that does not bind tightly enough (`expr_or_earlier`). -/
namespace TypeWatch
set_option autoImplicit false

def Expr.isNamed : Expr → Bool
  | .named .. => true
  | _ => false

namespace Reading

/-! ## Operators -/

/-- Only the operator of a named expression binds as weakly as that. -/
theorem eq_walrus {kind : TokenKind} (hlevel : Power.least < infixLevel kind ∧ ¬Power.named < infixLevel kind) :
    kind = .op .walrus := by
  have hbinds (op : BinaryOp) : Power.named < op.binds := by cases op <;> decide
  unfold infixLevel at hlevel
  split at hlevel
  case h_1 => rfl
  case h_8 =>
    cases h : BinaryOp.ofToken? kind with
    | none =>
      rw [h] at hlevel
      exact absurd hlevel.1 (by decide)
    | some op =>
      rw [h] at hlevel
      exact absurd (hbinds op) hlevel.2
  all_goals exact absurd (by decide) hlevel.2

/-- Every operator belongs to an expression at the lowest level. -/
theorem least_lt {level : Power} {kind : TokenKind} (h : level < infixLevel kind) : Power.least < infixLevel kind :=
  Nat.lt_of_le_of_lt (Nat.zero_le _) h

section Extend

variable {n : Nat} {sub : Below n} {level : Power}

/-! ## Ends -/

/-- An expression ends before a token that does not go on with it, or where no token is left. -/
theorem extend_ends (left : Expr) (c : Cursor) (h : c.size < n) :
    (extend sub level left c h).Gives fun _ d => level < infixLevel d.kind → d.rest = [] := by
  rw [extend]
  split
  · cases hrest : c.rest with
    | nil =>
      rw [next?_eq_none hrest]
      exact gives_ok fun _ => hrest
    | cons t ts =>
      obtain ⟨_, hnext⟩ := next?_eq_some hrest
      rw [hnext]
      refine gives_bind_check ?_
      rintro ⟨longer, c2, h2⟩
      refine Read.gives_bind (MayRead.gives_since (extend_ends longer c2 _) h2) ?_
      exact fun e d hd hends => gives_ok hends
  · rename_i hlevel
    exact gives_ok fun hlt => absurd hlt hlevel
termination_by c.size

theorem expr_ends (c : Cursor) : (expr level c).Gives fun _ d => level < infixLevel d.kind → d.rest = [] := by
  rw [expr]
  exact gives_bind_check fun left => MayRead.gives_since (extend_ends left.value left.next left.lt) left.lt

/-! ## Earlier ends -/

/-- What is read at a level is also read at a higher one, or there is an end at an operator, with which it goes on
at the lower level. -/
theorem extend_or_earlier (level : Power) (left : Expr) (c : Cursor) (h : c.size < n) {a : Moved Expr c}
    (ha : extend sub .least left c h = .ok a) : ∃ b, extend sub level left c h = .ok b ∧
      (b = a ∨ Power.least < infixLevel b.next.kind ∧ ¬level < infixLevel b.next.kind ∧
        ∃ h' a', extend sub .least b.value b.next h' = .ok a' ∧ a'.value = a.value ∧ a'.next = a.next) := by
  by_cases hlevel : level < infixLevel c.kind
  · have hleast := least_lt hlevel
    rw [extend, if_pos hleast] at ha
    rw [extend, if_pos hlevel]
    cases hrest : c.rest with
    | nil =>
      rw [next?_eq_none hrest] at ha ⊢
      exact ⟨a, ha, Or.inl rfl⟩
    | cons t ts =>
      obtain ⟨_, hnext⟩ := next?_eq_some hrest
      rw [hnext] at ha ⊢
      obtain ⟨⟨longer, c2, h2⟩, hlonger, ha⟩ := exists_of_bind_ok ha
      obtain ⟨more, hmore, ha⟩ := exists_of_bind_ok ha
      obtain rfl := Except.ok.inj ha
      obtain ⟨a', ha', rfl⟩ := exists_of_map_ok hmore
      obtain ⟨b, hb, hor⟩ := extend_or_earlier level longer c2 _ ha'
      refine ⟨.past b.value b.next (Nat.lt_of_le_of_lt b.le h2), ?_, ?_⟩
      · dsimp only
        rw [hlonger]
        change ((extend sub level longer c2 _).since h2 >>= _) = _
        rw [hb]
        rfl
      · refine hor.imp ?_ id
        rintro rfl
        rfl
  · rw [extend, if_neg hlevel]
    refine ⟨_, rfl, ?_⟩
    by_cases hleast : Power.least < infixLevel c.kind
    · exact Or.inr ⟨hleast, hlevel, h, a, ha, rfl, rfl⟩
    · rw [extend, if_neg hleast] at ha
      exact Or.inl (Except.ok.inj ha)
termination_by c.size

/-! ## Named expressions -/

variable (hsub : ∀ d (h : d.size < n), (sub .named d h).Gives fun _ d' => Power.named < infixLevel d'.kind → d'.rest = [])

include hsub in
theorem named_ends (left : Expr) (c : Cursor) (h : c.size < n) : (named sub left c h).Gives fun e d =>
    left.isNamed = false ∧ e.isNamed = true ∧ (Power.named < infixLevel d.kind → d.rest = []) := by
  unfold named
  split
  · refine Read.gives_bind (hsub c h) ?_
    exact fun value d h1 hends => gives_ok ⟨rfl, rfl, hends⟩
  · exact gives_error _

theorem extendAfter_walrus {t : Token} (ht : t.kind = .op .walrus) (left : Expr) (c : Cursor) (h : c.size < n) :
    extendAfter sub left t c h = named sub left c h := by
  rw [extendAfter, ht]

include hsub in
/-- No operator belongs to a named expression that has been read. -/
theorem extend_named {left : Expr} (hleft : left.isNamed = true) {c : Cursor}
    (hc : Power.named < infixLevel c.kind → c.rest = []) (h : c.size < n) {a : Moved Expr c}
    (ha : extend sub .least left c h = .ok a) : a.value = left := by
  rw [extend] at ha
  split at ha
  · rename_i hleast
    cases hrest : c.rest with
    | nil =>
      rw [next?_eq_none hrest] at ha
      obtain rfl := Except.ok.inj ha
      rfl
    | cons t ts =>
      have hnamed : ¬Power.named < infixLevel c.kind := fun hlt => nomatch (hc hlt).symm.trans hrest
      obtain ⟨_, hnext⟩ := next?_eq_some hrest
      have ht : t.kind = .op .walrus := (kind_of_next? hnext).symm.trans (eq_walrus ⟨hleast, hnamed⟩)
      rw [hnext] at ha
      obtain ⟨longer, hlonger, -⟩ := exists_of_bind_ok ha
      obtain ⟨b, hb, -⟩ := exists_of_map_ok hlonger
      rw [extendAfter_walrus ht] at hb
      cases hleft.symm.trans (named_ends hsub left _ _ b hb).1
  · obtain rfl := Except.ok.inj ha
    rfl

include hsub in
theorem isNamed_of_extend {left : Expr} {c : Cursor} (hc : c.kind = .op .walrus) (h : c.size < n) {a : Moved Expr c}
    (ha : extend sub .least left c h = .ok a) (hend : a.next.kind ≠ .op .walrus) : a.value.isNamed = true := by
  have hlevel : Power.least < infixLevel c.kind := by
    rw [hc]
    exact Nat.zero_lt_one
  rw [extend, if_pos hlevel] at ha
  cases hrest : c.rest with
  | nil =>
    rw [next?_eq_none hrest] at ha
    obtain rfl := Except.ok.inj ha
    exact absurd hc hend
  | cons t ts =>
    obtain ⟨_, hnext⟩ := next?_eq_some hrest
    have ht : t.kind = .op .walrus := (kind_of_next? hnext).symm.trans hc
    rw [hnext] at ha
    obtain ⟨⟨longer, c2, h2⟩, hlonger, ha⟩ := exists_of_bind_ok ha
    obtain ⟨more, hmore, ha⟩ := exists_of_bind_ok ha
    obtain rfl := Except.ok.inj ha
    obtain ⟨b, hb, heq⟩ := exists_of_map_ok hlonger
    obtain ⟨rfl, rfl⟩ := Advanced.mk.inj heq
    obtain ⟨a', ha', rfl⟩ := exists_of_map_ok hmore
    rw [extendAfter_walrus ht] at hb
    obtain ⟨-, hnamed, hends⟩ := named_ends hsub left _ _ b hb
    exact (congrArg Expr.isNamed (extend_named hsub hnamed hends _ ha')).trans hnamed

end Extend

/-! ## Expressions -/

theorem expr_or_earlier (level : Power) {c : Cursor} {a : Advanced Expr c} (ha : expr .least c = .ok a) :
    ∃ b, expr level c = .ok b ∧ (b = a ∨ Power.least < infixLevel b.next.kind ∧ ¬level < infixLevel b.next.kind ∧
      ∃ n h a', extend (exprBelow n) .least b.value b.next h = .ok a' ∧ a'.value = a.value ∧ a'.next = a.next) := by
  rw [expr] at ha ⊢
  obtain ⟨⟨left, c1, h1⟩, hleft, ha⟩ := exists_of_bind_ok ha
  obtain ⟨a', ha', rfl⟩ := exists_of_map_ok ha
  obtain ⟨b, hb, hor⟩ := extend_or_earlier level left c1 h1 ha'
  refine ⟨⟨b.value, b.next, Nat.lt_of_le_of_lt b.le h1⟩, ?_, ?_⟩
  · rw [hleft]
    change (extend (exprBelow c.size) level left c1 h1).since h1 = _
    rw [show extend (exprBelow c.size) level left c1 h1 = .ok b from hb]
    rfl
  · refine hor.imp ?_ ?_
    · rintro rfl
      rfl
    · rintro ⟨hleast, hlevel, hgoes⟩
      exact ⟨hleast, hlevel, c.size, hgoes⟩

/-- What is no named expression is read to the same end at the level that named expressions lie above. -/
theorem expr_named {c : Cursor} {a : Advanced Expr c} (ha : expr .least c = .ok a) (hnamed : a.value.isNamed = false)
    (hend : a.next.kind ≠ .op .walrus) : expr .named c = .ok a := by
  obtain ⟨b, hb, rfl | ⟨hleast, hlevel, n, h, a', ha', hvalue, hnext⟩⟩ := expr_or_earlier .named ha
  · exact hb
  · have hsub (d : Cursor) (h : d.size < n) : (exprBelow n .named d h).Gives fun _ d' =>
        Power.named < infixLevel d'.kind → d'.rest = [] := expr_ends d
    have htrue := isNamed_of_extend hsub (eq_walrus ⟨hleast, hlevel⟩) h ha' (hnext ▸ hend)
    rw [hvalue] at htrue
    cases hnamed.symm.trans htrue

/-! ## First words -/

theorem opensExpr_of_unary {kind : TokenKind} {op : UnaryOp} (h : UnaryOp.ofToken? kind = some op) :
    opensExpr kind = true := by
  unfold UnaryOp.ofToken? at h
  split at h <;> first | rfl | cases h

theorem opensExpr_of_operandAfter {n : Nat} {sub : Below n} {t : Token} {c : Cursor} {h : c.size < n}
    {a : Moved Expr c} (ha : operandAfter sub t c h = .ok a) : opensExpr t.kind = true := by
  unfold operandAfter at ha
  dsimp only at ha
  split at ha
  case h_17 =>
    split at ha
    · rename_i op hop
      exact opensExpr_of_unary hop
    · cases ha
  all_goals
    rename_i hkind
    rw [hkind]
    rfl

/-- An expression begins with a word that can begin one. -/
theorem opensExpr_of_expr {level : Power} {c : Cursor} {a : Advanced Expr c} (ha : expr level c = .ok a) :
    opensExpr c.kind = true := by
  rw [expr] at ha
  obtain ⟨left, hleft, -⟩ := exists_of_bind_ok ha
  unfold operand at hleft
  split at hleft
  · cases hleft
  · rename_i t c1 h1 hnext
    obtain ⟨b, hb, -⟩ := exists_of_map_ok hleft
    exact (congrArg opensExpr (kind_of_next? hnext)).trans (opensExpr_of_operandAfter hb)

end Reading
end TypeWatch
