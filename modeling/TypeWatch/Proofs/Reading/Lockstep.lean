import TypeWatch.Proofs.Reading.Matched
import TypeWatch.Proofs.Syntax.Moved
import TypeWatch.Reading.Expr
import TypeWatch.Token.Layout

/-! # Readers in lockstep

Two streams are in lockstep where a reader of expressions cannot tell them apart, their places aside: the tokens ahead
are the same, up to a place where no expression goes on (`Lockstep`). A reader that succeeds on the one succeeds on the
other, and gives what it gave there, moved. -/
namespace TypeWatch.Reading
set_option autoImplicit false

open Layout (depthAfter)

/-! ## Borders -/

/-- Tokens at which every expression ends that no bracket holds open: a comma, a closing bracket or the end of a
line. -/
def isBorder : TokenKind → Bool
  | .newline => true
  | .op o =>
    match o with
    | .comma | .closeParen | .closeBracket | .closeBrace => true
    | _ => false
  | _ => false

theorem isBorder_cases {kind : TokenKind} (h : isBorder kind = true) : kind = .newline ∨ kind = .op .comma ∨
    kind = .op .closeParen ∨ kind = .op .closeBracket ∨ kind = .op .closeBrace := by
  unfold isBorder at h
  split at h
  · exact Or.inl rfl
  · split at h
    · exact Or.inr (Or.inl rfl)
    · exact Or.inr (Or.inr (Or.inl rfl))
    · exact Or.inr (Or.inr (Or.inr (Or.inl rfl)))
    · exact Or.inr (Or.inr (Or.inr (Or.inr rfl)))
    · cases h
  · cases h

/-- Tokens that go on with no expression but a lambda in whose parameters they stand: the borders, the colon and the
sign before a default. -/
def isStop (kind : TokenKind) : Bool := isBorder kind || decide (kind = .op .colon ∨ kind = .op .assign)

theorem isStop_of_isBorder {kind : TokenKind} (h : isBorder kind = true) : isStop kind = true := by
  rw [isStop, h, Bool.true_or]

theorem isBorder_of_isStop {kind : TokenKind} (h : isStop kind = false) : isBorder kind = false :=
  (Bool.or_eq_false_iff.mp h).1

/-- What holds of each stop. -/
theorem of_isStop {p : TokenKind → Prop} (hp : ∀ k ∈ [TokenKind.newline, .op .comma, .op .closeParen, .op .closeBracket,
    .op .closeBrace, .op .colon, .op .assign], p k) {kind : TokenKind} (h : isStop kind = true) : p kind := by
  apply hp
  rcases Bool.or_eq_true_iff.mp h with hborder | hmark
  · rcases isBorder_cases hborder with rfl | rfl | rfl | rfl | rfl <;> decide
  · rcases of_decide_eq_true hmark with rfl | rfl <;> decide

/-- Borders at the same place of two streams: ends of lines, or where no bracket is open other stops that the second
stream may have. Only after a list without brackets it matters whether a comma follows. -/
inductive Meets (others : TokenKind → Prop) (depth : Nat) : TokenKind → TokenKind → Prop
  | line : Meets others depth .newline .newline
  | border {k k' : TokenKind} : depth = 0 → isBorder k = true → isStop k' = true → k ≠ .op .comma → others k' →
      Meets others depth k k'

/-- No expression begins at a stop. -/
theorem opensExpr_stop {kind : TokenKind} (h : isStop kind = true) : opensExpr kind = false :=
  of_isStop (p := fun k => opensExpr k = false) (by decide) h

namespace Meets

variable {others : TokenKind → Prop} {depth : Nat} {k k' : TokenKind}

theorem isBorder (h : Meets others depth k k') : isBorder k = true := by
  cases h with
  | line => rfl
  | border _ hk _ _ _ => exact hk

theorem isStop (h : Meets others depth k k') : isStop k' = true := by
  cases h with
  | line => rfl
  | border _ _ hk' _ _ => exact hk'

/-- In brackets only the ends of lines are borders. -/
theorem inner (h : Meets others (depth + 1) k k') : k = .newline ∧ k' = .newline := by
  cases h with
  | line => exact ⟨rfl, rfl⟩
  | border hdepth => cases hdepth

theorem ne_comma (h : Meets others depth k k') : k ≠ .op .comma := by
  cases h with
  | line => rintro ⟨⟩
  | border _ _ _ hk _ => exact hk

theorem ne_comma' (h : Meets others depth k k') (hsafe : 0 < depth ∨ ¬others (.op .comma)) : k' ≠ .op .comma := by
  cases h with
  | line => rintro ⟨⟩
  | border hdepth _ _ _ hk' =>
    rintro rfl
    rcases hsafe with hpos | hno
    · rw [hdepth] at hpos
      cases hpos
    · exact hno hk'

end Meets

/-! ## Streams in lockstep -/

/-- What the next tokens of two streams are. What is yielded without brackets may be a list. -/
inductive NextAt (μ : Motion) (others : TokenKind → Prop) (At : Nat → Cursor → Cursor → Prop) (depth : Nat) (c d : Cursor) : Prop
  | token {t : Token} {c1 d1 : Cursor} {h : c1.size < c.size} {h' : d1.size < d.size} : t.kind.isLayout = false →
      (t.kind = .word .kwYield → 0 < depth ∨ ¬others (.op .comma)) → μ.Joins t.span.start c1.lastEnd t.text c1.rest →
      c.next? = some ⟨t, c1, h⟩ → d.next? = some ⟨t.moved μ, d1, h'⟩ → At (depthAfter depth t.kind) c1 d1 →
      NextAt μ others At depth c d
  | border {t u : Token} {c1 d1 : Cursor} {h : c1.size < c.size} {h' : d1.size < d.size} :
      Meets others depth t.kind u.kind → u.span.start = μ.start t.span.start → c.next? = some ⟨t, c1, h⟩ →
      d.next? = some ⟨u, d1, h'⟩ → NextAt μ others At depth c d

/-- Which places of two streams are in lockstep, where some brackets are open, how places go from the one stream to
the other, and which borders the other one may have besides the ends of lines. -/
structure Lockstep where
  motion : Motion
  others : TokenKind → Prop
  At : Nat → Cursor → Cursor → Prop
  lastEnd {depth : Nat} {c d : Cursor} : At depth c d → d.lastEnd = motion.stop c.lastEnd
  next {depth : Nat} {c d : Cursor} : At depth c d → NextAt motion others At depth c d

/-- What a reader gives on the second stream is what it gave on the first, moved. -/
def Lockstep.Keeps {α β : Type} (L : Lockstep) (depth : Nat) (g : α → β) (x : α) (c : Cursor) (y : β) (d : Cursor) :
    Prop := y = g x ∧ L.At depth c d

/-- What the next tokens of two streams are if they are of a kind. -/
inductive AcceptAt (L : Lockstep) (depth : Nat) (kind : TokenKind) (c d : Cursor) : Prop
  | none : c.accept? kind = none → d.accept? kind = none → AcceptAt L depth kind c d
  | some {t : Token} {c1 d1 : Cursor} {h : c1.size < c.size} {h' : d1.size < d.size} : t.kind = kind →
      c.accept? kind = some ⟨t, c1, h⟩ → d.accept? kind = some ⟨t.moved L.motion, d1, h'⟩ →
      L.At (depthAfter depth kind) c1 d1 → AcceptAt L depth kind c d

namespace Lockstep

variable {L : Lockstep} {depth : Nat} {c d : Cursor}

/-- The stretch up to the last token is moved. -/
theorem spanFrom (h : L.At depth c d) (p : Position) :
    d.spanFrom (L.motion.start p) = (c.spanFrom p).moved L.motion := by
  rw [Cursor.spanFrom, L.lastEnd h]
  rfl

theorem spanFrom_expr (h : L.At depth c d) (e : Expr) :
    d.spanFrom (e.moved L.motion).span.start = (c.spanFrom e.span.start).moved L.motion := by
  rw [Expr.span_moved]
  exact spanFrom h _

theorem position (hcd : L.At depth c d) : d.position = L.motion.start c.position := by
  cases L.next hcd with
  | token _ _ _ hc hd _ =>
    rw [(Cursor.next?_passes hc).position_eq, (Cursor.next?_passes hd).position_eq]
    rfl
  | border _ hstart hc hd =>
    rw [(Cursor.next?_passes hc).position_eq, (Cursor.next?_passes hd).position_eq, hstart]

/-! ## Kinds ahead -/

/-- A test that does not tell stops apart. -/
def Blind {α : Type} (L : Lockstep) (depth : Nat) (p : TokenKind → α) : Prop :=
  ∀ k k', Meets L.others depth k k' → p k' = p k

theorem blind {α : Type} {p : TokenKind → α} (hp : ∀ k, isStop k = true → p k = p .newline) : L.Blind depth p :=
  fun _ _ hmeets => (hp _ hmeets.isStop).trans (hp _ (isStop_of_isBorder hmeets.isBorder)).symm

theorem blind_inner {α : Type} (p : TokenKind → α) : L.Blind (depth + 1) p := by
  intro k k' hmeets
  rw [hmeets.inner.1, hmeets.inner.2]

theorem Blind.kind {α : Type} {p : TokenKind → α} (hp : L.Blind depth p) (hcd : L.At depth c d) :
    p d.kind = p c.kind := by
  cases L.next hcd with
  | token _ _ _ hc hd _ => rw [kind_of_next? hc, kind_of_next? hd, Token.moved]
  | border hmeets _ hc hd =>
    rw [kind_of_next? hc, kind_of_next? hd]
    exact hp _ _ hmeets

theorem kind_inner (hcd : L.At (depth + 1) c d) : d.kind = c.kind := (blind_inner id).kind hcd

theorem kind_comma (hcd : L.At depth c d) (hsafe : 0 < depth ∨ ¬L.others (.op .comma)) :
    d.kind = .op .comma ↔ c.kind = .op .comma := by
  cases L.next hcd with
  | token _ _ _ hc hd _ => rw [kind_of_next? hc, kind_of_next? hd, Token.moved]
  | border hmeets _ hc hd =>
    rw [kind_of_next? hc, kind_of_next? hd]
    exact iff_of_false (hmeets.ne_comma' hsafe) hmeets.ne_comma

/-! ## Tokens that are looked for -/

theorem accept_of (hcd : L.At depth c d) {kind : TokenKind}
    (hkind : ∀ k, Meets L.others depth c.kind k → c.kind ≠ kind ∧ k ≠ kind) : AcceptAt L depth kind c d := by
  cases L.next hcd with
  | @token t _ _ _ _ _ _ _ hc hd hnext =>
    have hc' := accept?_of_next? hc kind
    have hd' := accept?_of_next? hd kind
    by_cases ht : t.kind = kind
    · exact .some ht (hc'.trans (if_pos ht)) (hd'.trans (if_pos ht)) (ht ▸ hnext)
    · exact .none (hc'.trans (if_neg ht)) (hd'.trans (if_neg ht))
  | border hmeets _ hc hd =>
    rw [kind_of_next? hc] at hkind
    obtain ⟨hne, hne'⟩ := hkind _ hmeets
    exact .none ((accept?_of_next? hc kind).trans (if_neg hne)) ((accept?_of_next? hd kind).trans (if_neg hne'))

theorem accept (hcd : L.At depth c d) (kind : TokenKind) (hkind : isStop kind = false) :
    AcceptAt L depth kind c d := by
  refine accept_of hcd fun k hmeets => ⟨?_, ?_⟩ <;> rintro rfl
  · cases (isBorder_of_isStop hkind).symm.trans hmeets.isBorder
  · cases hkind.symm.trans hmeets.isStop

theorem accept_inner (hcd : L.At (depth + 1) c d) (kind : TokenKind) (hkind : kind.isLayout = false) :
    AcceptAt L (depth + 1) kind c d := by
  have hne : TokenKind.newline ≠ kind := by
    rintro rfl
    cases hkind
  refine accept_of hcd fun k hmeets => ?_
  rw [hmeets.inner.1, hmeets.inner.2]
  exact ⟨hne, hne⟩

theorem accept_comma (hcd : L.At depth c d) (hsafe : 0 < depth ∨ ¬L.others (.op .comma)) : AcceptAt L depth (.op .comma) c d :=
  accept_of hcd fun _ hmeets => ⟨hmeets.ne_comma, hmeets.ne_comma' hsafe⟩

theorem demand_of {kind : TokenKind} (haccept : AcceptAt L depth kind c d) (fault fault' : Fault) :
    (c.demand kind fault).Matches (d.demand kind fault') fun t c1 u d1 =>
      u = t.moved L.motion ∧ t.kind = kind ∧ L.At (depthAfter depth kind) c1 d1 := by
  unfold Cursor.demand
  cases haccept with
  | none hc _ =>
    rw [hc]
    exact matches_error _ _ _
  | some ht hc hd hnext =>
    rw [hc, hd]
    exact matches_ok ⟨rfl, ht, hnext⟩

theorem demand (hcd : L.At depth c d) {kind : TokenKind} (hkind : isStop kind = false) (fault fault' : Fault) :
    (c.demand kind fault).Matches (d.demand kind fault') fun t c1 u d1 =>
      u = t.moved L.motion ∧ t.kind = kind ∧ L.At (depthAfter depth kind) c1 d1 :=
  demand_of (accept hcd kind hkind) fault fault'

theorem expect (hcd : L.At depth c d) {kind : TokenKind} (hkind : isStop kind = false) :
    (c.expect kind).Matches (d.expect kind) fun t c1 u d1 =>
      u = t.moved L.motion ∧ t.kind = kind ∧ L.At (depthAfter depth kind) c1 d1 :=
  demand hcd hkind _ _

theorem expect_inner (hcd : L.At (depth + 1) c d) {kind : TokenKind} (hkind : kind.isLayout = false) :
    (c.expect kind).Matches (d.expect kind) fun t c1 u d1 =>
      u = t.moved L.motion ∧ t.kind = kind ∧ L.At (depthAfter (depth + 1) kind) c1 d1 :=
  demand_of (accept_inner hcd kind hkind) _ _

/-! ## Clear places -/

/-- A place where the one stream has no other border than the other one. -/
def Clear (L : Lockstep) (depth : Nat) (c : Cursor) : Prop := ∀ k, Meets L.others depth c.kind k → k = c.kind

theorem clear_of_isBorder (h : isBorder c.kind = false) : L.Clear depth c := by
  intro k hmeets
  cases h.symm.trans hmeets.isBorder

theorem clear_of_comma (h : c.kind = .op .comma) : L.Clear depth c := fun _ hmeets => absurd h hmeets.ne_comma

theorem Clear.kind (h : L.Clear depth c) (hcd : L.At depth c d) : d.kind = c.kind := by
  cases L.next hcd with
  | token _ _ _ hc hd _ => rw [kind_of_next? hc, kind_of_next? hd, Token.moved]
  | border hmeets _ hc hd =>
    rw [← kind_of_next? hc, ← kind_of_next? hd] at hmeets
    exact h _ hmeets

theorem Clear.accept (h : L.Clear depth c) (hcd : L.At depth c d) (kind : TokenKind)
    (hkind : isBorder kind = false ∨ kind = .op .comma) : AcceptAt L depth kind c d := by
  refine accept_of hcd fun k hmeets => ?_
  have hne : c.kind ≠ kind := by
    rintro rfl
    rcases hkind with hborder | hcomma
    · cases hborder.symm.trans hmeets.isBorder
    · exact hmeets.ne_comma hcomma
  rw [h k hmeets]
  exact ⟨hne, hne⟩

/-- A list that ends at a clear place goes on, if it does, after a clear one. -/
theorem clear_of_followers {α : Type} {n : Nat} {item : ItemBelow α n} {ends : TokenKind → Bool} {h : c.size < n}
    {a : Moved (List α) c} (ha : followers item ends c h = .ok a) (hclear : L.Clear depth a.next) :
    L.Clear depth c := by
  by_cases hcomma : c.kind = .op .comma
  · exact clear_of_comma hcomma
  · rw [followers, accept?_of_kind_ne hcomma] at ha
    obtain rfl := Except.ok.inj ha
    exact hclear

theorem expectName (hcd : L.At depth c d) : c.expectName.Matches d.expectName (L.Keeps depth id) := by
  refine Read.matches_bind (expect hcd rfl) ?_
  rintro t c1 h _ d1 h' ⟨rfl, hkind, hnext⟩
  refine matches_ok ⟨Token.text_moved ?_, hnext⟩
  rw [hkind]
  rfl

/-- No loop begins at a stop. -/
theorem opensClause_stop {c : Cursor} (h : isStop c.kind = true) : opensClause c = false := by
  have hword (k : Keyword) : c.kind ≠ .word k := by
    intro hkind
    rw [hkind] at h
    cases h
  simp only [Reading.opensClause, hword, decide_false, Bool.false_and, Bool.or_false]

/-- Whether a loop begins is the same in both streams. -/
theorem opensClause (hcd : L.At depth c d) : opensClause d = opensClause c := by
  have hone {e e1 : Cursor} {t : Token} {a : Advanced Token e1} {h : e1.size < e.size} (he : e.next? = some ⟨t, e1, h⟩)
      (he1 : e1.next? = some a) : e.kindAt 1 = a.value.kind := by
    rw [Cursor.kindAt, (Cursor.next?_passes he).rest, (Cursor.next?_passes he1).rest]
    rfl
  have hfor {kind : TokenKind} (hkind : isStop kind = true) : kind ≠ .word .kwFor := by
    rintro rfl
    cases hkind
  cases L.next hcd with
  | token _ _ _ hc hd hnext =>
    unfold Reading.opensClause
    rw [kind_of_next? hc, kind_of_next? hd, Token.moved]
    cases L.next hnext with
    | token _ _ _ hc1 hd1 _ => rw [hone hc hc1, hone hd hd1, Token.moved]
    | border hmeets _ hc1 hd1 =>
      rw [hone hc hc1, hone hd hd1, decide_eq_false (hfor (isStop_of_isBorder hmeets.isBorder)),
        decide_eq_false (hfor hmeets.isStop)]
  | border hmeets _ hc hd =>
    have hstop := isStop_of_isBorder hmeets.isBorder
    have hstop' := hmeets.isStop
    rw [← kind_of_next? hc] at hstop
    rw [← kind_of_next? hd] at hstop'
    rw [opensClause_stop hstop, opensClause_stop hstop']

/-! ## Items -/

/-- What is said of two readers of items where some brackets are open. -/
def KeepsItems {α : Type} (L : Lockstep) (depth : Nat) {n n' : Nat} (item : ItemBelow α n) (item' : ItemBelow α n')
    (g : α → α) : Prop :=
  ∀ {c d : Cursor} (h : c.size < n) (h' : d.size < n'), L.At depth c d → (item c h).Matches (item' d h') (L.Keeps depth g)

/-- What is said of two readers of items that end at a clear place. None begins at a border. -/
def KeepsClear {α : Type} (L : Lockstep) (depth : Nat) {n n' : Nat} (item : ItemBelow α n) (item' : ItemBelow α n')
    (g : α → α) : Prop :=
  ∀ {c d : Cursor} (h : c.size < n) (h' : d.size < n'), L.At depth c d → ∀ a, item c h = .ok a → L.Clear depth a.next →
    isBorder c.kind = false ∧ ∃ b, item' d h' = .ok b ∧ L.Keeps depth g a.value a.next b.value b.next

/-- What is said of two readers of expressions. -/
def KeepsExprs (L : Lockstep) {n n' : Nat} (sub : Below n) (sub' : Below n') : Prop :=
  ∀ level depth, L.KeepsItems depth (sub level) (sub' level) (Expr.moved L.motion)

section Items

variable {α : Type} {n n' : Nat} {item : ItemBelow α n} {item' : ItemBelow α n'} {g : α → α}

theorem followers_matches (hitem : L.KeepsItems depth item item' g) {ends : TokenKind → Bool}
    (hends : L.Blind depth ends) (hsafe : 0 < depth ∨ ¬L.others (.op .comma)) {c d : Cursor}
    (hcd : L.At depth c d) (h : c.size < n) (h' : d.size < n') :
    (followers item ends c h).Matches (followers item' ends d h') (L.Keeps depth (List.map g)) := by
  rw [followers, followers]
  cases accept_comma hcd hsafe with
  | none hc hd =>
    rw [hc, hd]
    exact matches_ok ⟨rfl, hcd⟩
  | @some t c1 d1 h1 h1' _ hc hd hnext =>
    have hnext : L.At depth c1 d1 := hnext
    rw [hc, hd]
    dsimp only
    rw [hends.kind hnext]
    split
    · exact matches_ok ⟨rfl, hnext⟩
    · refine Read.matches_bind (Read.matches_since (hitem _ _ hnext) h1 h1') ?_
      rintro x c2 h2 _ d2 h2' ⟨rfl, hx⟩
      refine Read.matches_bind (MayRead.matches_since (followers_matches hitem hends hsafe hx _ _) h2 h2') ?_
      rintro xs c3 h3 _ d3 h3' ⟨rfl, hxs⟩
      exact matches_ok ⟨rfl, hxs⟩
termination_by c.size

theorem followers_inner (hitem : L.KeepsItems (depth + 1) item item' g) (ends : TokenKind → Bool)
    (hcd : L.At (depth + 1) c d) (h : c.size < n) (h' : d.size < n') :
    (followers item ends c h).Matches (followers item' ends d h') (L.Keeps (depth + 1) (List.map g)) :=
  followers_matches hitem (blind_inner ends) (Or.inl depth.succ_pos) hcd h h'

theorem someItems_matches (hitem : L.KeepsItems depth item item' g) {ends : TokenKind → Bool}
    (hends : L.Blind depth ends) (hsafe : 0 < depth ∨ ¬L.others (.op .comma))
    (hcd : L.At depth c d) (h : c.size < n) (h' : d.size < n') :
    (someItems item ends c h).Matches (someItems item' ends d h') (L.Keeps depth (List.map g)) := by
  refine Read.matches_bind (hitem h h' hcd) ?_
  rintro x c1 h1 _ d1 h1' ⟨rfl, hx⟩
  refine Read.matches_bind (MayRead.matches_since (followers_matches hitem hends hsafe hx _ _) h1 h1') ?_
  rintro xs c2 h2 _ d2 h2' ⟨rfl, hxs⟩
  exact matches_ok ⟨rfl, hxs⟩

theorem anyItems_inner (hitem : L.KeepsItems (depth + 1) item item' g) (closing : TokenKind)
    (hcd : L.At (depth + 1) c d) (h : c.size < n) (h' : d.size < n') :
    (anyItems item closing c h).Matches (anyItems item' closing d h') (L.Keeps (depth + 1) (List.map g)) := by
  unfold anyItems
  rw [kind_inner hcd]
  split
  · exact matches_ok ⟨rfl, hcd⟩
  · exact Read.matches_moved
      (someItems_matches hitem (blind_inner _) (Or.inl depth.succ_pos) hcd h h')

/-! ## Items up to a clear place -/

theorem followers_clear (hitem : L.KeepsClear depth item item' g) (ends : TokenKind → Bool) {c d : Cursor}
    (hcd : L.At depth c d) (h : c.size < n) (h' : d.size < n') {a : Moved (List α) c}
    (ha : followers item ends c h = .ok a) (hclear : L.Clear depth a.next) :
    ∃ b, followers item' ends d h' = .ok b ∧ L.Keeps depth (List.map g) a.value a.next b.value b.next := by
  have hhere := clear_of_followers ha hclear
  rw [followers] at ha ⊢
  cases hhere.accept hcd (.op .comma) (Or.inr rfl) with
  | none hc hd =>
    rw [hc] at ha
    rw [hd]
    obtain rfl := Except.ok.inj ha
    exact ⟨_, rfl, rfl, hcd⟩
  | @some t c1 d1 h1 h1' _ hc hd hnext =>
    have hnext : L.At depth c1 d1 := hnext
    rw [hc] at ha
    rw [hd]
    dsimp only at ha ⊢
    by_cases hend : ends c1.kind = true
    · rw [if_pos hend] at ha
      obtain rfl := Except.ok.inj ha
      rw [if_pos ((congrArg ends (hclear.kind hnext)).trans hend)]
      exact ⟨_, rfl, rfl, hnext⟩
    · rw [if_neg hend] at ha
      obtain ⟨⟨x, c2, h2⟩, hx, ha⟩ := exists_of_bind_ok ha
      obtain ⟨⟨xs, c3, h3⟩, hxs, ha⟩ := exists_of_bind_ok ha
      obtain rfl := Except.ok.inj ha
      obtain ⟨_, hx⟩ := Read.exists_of_since hx
      obtain ⟨_, hxs⟩ := MayRead.exists_of_since hxs
      obtain ⟨hborder, ⟨_, d2, h2'⟩, hx', rfl, hat⟩ :=
        hitem _ (below_of_lt h1' h') hnext _ hx (clear_of_followers hxs hclear)
      obtain ⟨⟨_, d3, h3'⟩, hxs', rfl, hlast⟩ :=
        followers_clear hitem ends hat _ (below_of_lt (Nat.lt_trans h2' h1') h') hxs hclear
      rw [if_neg (by rwa [(clear_of_isBorder hborder).kind hnext])]
      exact ⟨_, bind_of_ok (Read.since_of_ok hx' h1') (bind_of_ok (MayRead.since_of_ok hxs' _) rfl), rfl, hlast⟩
termination_by c.size

theorem anyItems_clear (hitem : L.KeepsClear depth item item' g) (closing : TokenKind) (hcd : L.At depth c d)
    (h : c.size < n) (h' : d.size < n') {a : Moved (List α) c} (ha : anyItems item closing c h = .ok a)
    (hclear : L.Clear depth a.next) :
    ∃ b, anyItems item' closing d h' = .ok b ∧ L.Keeps depth (List.map g) a.value a.next b.value b.next := by
  unfold anyItems at ha ⊢
  by_cases hend : c.kind = closing
  · rw [if_pos hend] at ha
    obtain rfl := Except.ok.inj ha
    rw [if_pos ((hclear.kind hcd).trans hend)]
    exact ⟨_, rfl, rfl, hcd⟩
  · rw [if_neg hend] at ha
    obtain ⟨a', ha', rfl⟩ := exists_of_map_ok ha
    obtain ⟨⟨x, c1, h1⟩, hx, ha'⟩ := exists_of_bind_ok ha'
    obtain ⟨⟨xs, c2, h2⟩, hxs, ha'⟩ := exists_of_bind_ok ha'
    obtain rfl := Except.ok.inj ha'
    obtain ⟨_, hxs⟩ := MayRead.exists_of_since hxs
    obtain ⟨hborder, ⟨_, d1, h1'⟩, hx', rfl, hat⟩ := hitem h h' hcd _ hx (clear_of_followers hxs hclear)
    obtain ⟨⟨_, d2, h2'⟩, hxs', rfl, hlast⟩ := followers_clear hitem _ hat _ (below_of_lt h1' h') hxs hclear
    have hsome : someItems item' (· = closing) d h' = .ok _ :=
      bind_of_ok hx' (bind_of_ok (MayRead.since_of_ok hxs' h1') rfl)
    rw [if_neg (by rwa [(clear_of_isBorder hborder).kind hcd]), hsome]
    exact ⟨_, rfl, rfl, hlast⟩

end Items

/-! ## Expressions -/

section Exprs

variable {n n' : Nat} {sub : Below n} {sub' : Below n'}

theorem exprList_matches (hsub : L.KeepsExprs sub sub') (hsafe : 0 < depth ∨ ¬L.others (.op .comma)) (level : Power)
    (hcd : L.At depth c d) (h : c.size < n) (h' : d.size < n') : (exprList sub level c h).Matches
      (exprList sub' level d h') (L.Keeps depth (Expr.moved L.motion)) := by
  have hends : L.Blind depth fun k => !opensExpr k := blind fun k hk => by rw [opensExpr_stop hk]; rfl
  refine Read.matches_bind (hsub level depth h h' hcd) ?_
  rintro first c1 h1 _ d1 h1' ⟨rfl, hfirst⟩
  dsimp only
  simp only [kind_comma hfirst hsafe]
  split
  · have hmore := followers_matches (hsub level depth) hends hsafe hfirst (below_of_lt h1 h) (below_of_lt h1' h')
    refine Read.matches_bind (MayRead.matches_since hmore h1 h1') ?_
    rintro others c2 h2 _ d2 h2' ⟨rfl, hothers⟩
    refine matches_ok ⟨?_, hothers⟩
    simp only [spanFrom_expr hothers, Expr.moved, Expr.movedList_eq, List.map_cons]
  · exact matches_ok ⟨rfl, hfirst⟩

/-- An expression that may be left out in brackets. -/
theorem exprUnless_matches (hsub : L.KeepsExprs sub sub') (ends : TokenKind → Bool) (hcd : L.At (depth + 1) c d)
    (h : c.size < n) (h' : d.size < n') : (exprUnless sub ends c h).Matches (exprUnless sub' ends d h')
      (L.Keeps (depth + 1) (Option.map (Expr.moved L.motion))) := by
  unfold exprUnless
  rw [kind_inner hcd]
  split
  · exact matches_ok ⟨rfl, hcd⟩
  · refine Read.matches_bind (hsub .least _ h h' hcd) ?_
    rintro e c1 h1 _ d1 h1' ⟨rfl, he⟩
    exact matches_ok ⟨rfl, he⟩

theorem exprAfter_matches (hsub : L.KeepsExprs sub sub') {mark : TokenKind}
    (haccept : AcceptAt L depth mark c d) (hbracket : depthAfter depth mark = depth) (level : Power)
    (hcd : L.At depth c d) (h : c.size < n) (h' : d.size < n') :
    (exprAfter sub mark level c h).Matches (exprAfter sub' mark level d h')
      (L.Keeps depth (Option.map (Expr.moved L.motion))) := by
  unfold exprAfter
  cases haccept with
  | none hc hd =>
    rw [hc, hd]
    exact matches_ok ⟨rfl, hcd⟩
  | @some t c1 d1 h1 h1' _ hc hd hnext =>
    rw [hc, hd]
    rw [hbracket] at hnext
    refine Read.matches_bind (Read.matches_since (hsub level _ _ _ hnext) h1 h1') ?_
    rintro e c2 h2 _ d2 h2' ⟨rfl, he⟩
    exact matches_ok ⟨rfl, he⟩

end Exprs

end Lockstep
end TypeWatch.Reading
