import TypeWatch.Proofs.Reading.Cursor
import TypeWatch.Reading.Sequence

/-! # Readers of lists

Each reader is given a reader of expressions that reads them where they are (`ReadsExprs`), or a reader of
items, whose results follow each other in a list (`Chain`). -/
namespace TypeWatch.Reading
set_option autoImplicit false

/-! ## Expressions and items -/

/-- What is said of a reader of expressions. -/
def ReadsExprs {n : Nat} (sub : Below n) : Prop :=
  ∀ level c h, (sub level c h).Gives fun e d => Reads c e.span.start d

/-- A place reached after a token that begins at `start`, by something that begins with that token or
after it. -/
def ReadsFrom (start : Position) (c : Cursor) (p : Position) (d : Cursor) : Prop :=
  Reaches c d ∧ (p = start ∨ Reads c p d)

theorem readsFrom_start {start : Position} {c d : Cursor} (h : Reaches c d) : ReadsFrom start c start d :=
  ⟨h, Or.inl rfl⟩

theorem Passes.readsFrom {c c1 d : Cursor} {t : Token} {p : Position} (h : Passes c t c1)
    (hno : t.kind.isLayout = false) (h' : ReadsFrom t.span.start c1 p d) : Reads c p d := by
  rcases h'.2 with heq | hp
  · rw [heq]
    exact (h.reads hno).reaching h'.1
  · exact h.reaches.reads hp

theorem Reaches.readsFrom {c c1 d : Cursor} {start p : Position} (h : Reaches c c1)
    (h' : ReadsFrom start c1 p d) : ReadsFrom start c p d :=
  ⟨h.trans h'.1, h'.2.imp id h.reads⟩

/-- Items that are read one after the other between two places. -/
inductive Chain {α : Type} (P : Cursor → α → Cursor → Prop) : Cursor → List α → Cursor → Prop
  | nil {c d : Cursor} : Reaches c d → Chain P c [] d
  | cons {c c1 c2 d : Cursor} {x : α} {xs : List α} : Reaches c c1 → P c1 x c2 → Chain P c2 xs d →
      Chain P c (x :: xs) d

theorem Chain.reaches {α : Type} {P : Cursor → α → Cursor → Prop}
    (hP : ∀ {c x d}, P c x d → Reaches c d) {c d : Cursor} {xs : List α} (h : Chain P c xs d) :
    Reaches c d := by
  induction h with
  | nil h => exact h
  | cons h hx _ ih => exact (h.trans (hP hx)).trans ih

section Items

variable {α : Type} {n : Nat} {item : ItemBelow α n} {P : Cursor → α → Cursor → Prop}

theorem followers_gives (hitem : ∀ c h, (item c h).Gives (P c)) (ends : TokenKind → Bool) (c : Cursor)
    (h : c.size < n) : (followers item ends c h).Gives fun xs d => Chain P c xs d := by
  rw [followers]
  split
  · exact gives_ok (.nil (.refl c))
  · rename_i t c1 h1 hcomma
    have hpass := (Cursor.accept?_passes hcomma).2.reaches
    split
    · exact gives_ok (.nil hpass)
    · refine Read.gives_bind (Read.gives_since (hitem c1 _) h1) ?_
      intro x c2 h2 hx
      refine Read.gives_bind (MayRead.gives_since (followers_gives hitem ends c2 _) h2) ?_
      intro xs d h3 hxs
      exact gives_ok (.cons hpass hx hxs)
termination_by c.size

theorem someItems_gives (hitem : ∀ c h, (item c h).Gives (P c)) (ends : TokenKind → Bool) (c : Cursor)
    (h : c.size < n) : (someItems item ends c h).Gives fun xs d => Chain P c xs d := by
  refine Read.gives_bind (hitem c h) ?_
  intro x c1 h1 hx
  refine Read.gives_bind (MayRead.gives_since (followers_gives hitem ends c1 _) h1) ?_
  intro xs d h2 hxs
  exact gives_ok (.cons (.refl c) hx hxs)

theorem anyItems_gives (hitem : ∀ c h, (item c h).Gives (P c)) (closing : TokenKind) (c : Cursor)
    (h : c.size < n) : (anyItems item closing c h).Gives fun xs d => Chain P c xs d := by
  unfold anyItems
  split
  · exact gives_ok (.nil (.refl c))
  · exact Read.gives_moved (someItems_gives hitem _ c h)

end Items

section Exprs

variable {n : Nat} {sub : Below n}

theorem followers_reaches (hsub : ReadsExprs sub) (level : Power) (ends : TokenKind → Bool) (c : Cursor)
    (h : c.size < n) : (followers (sub level) ends c h).Gives fun _ d => Reaches c d := by
  have hchain := followers_gives (fun c h => hsub level c h) ends c h
  exact fun a ha => (hchain a ha).reaches fun hx => hx.reaches

theorem exprList_gives (hsub : ReadsExprs sub) (level : Power) (c : Cursor) (h : c.size < n) :
    (exprList sub level c h).Gives fun e d => Reads c e.span.start d := by
  refine Read.gives_bind (hsub level c h) ?_
  intro first c1 h1 hfirst
  dsimp only
  split
  · refine Read.gives_bind (MayRead.gives_since (followers_reaches hsub level _ c1 _) h1) ?_
    intro others c2 h2 hothers
    exact gives_ok (hfirst.reaching hothers)
  · exact gives_ok hfirst

theorem exprUnless_gives (hsub : ReadsExprs sub) (ends : TokenKind → Bool) (c : Cursor) (h : c.size < n) :
    (exprUnless sub ends c h).Gives fun _ d => Reaches c d := by
  unfold exprUnless
  split
  · exact gives_ok (.refl c)
  · refine Read.gives_bind (hsub .least c h) ?_
    intro e c1 h1 he
    exact gives_ok he.reaches

theorem exprAfter_gives (hsub : ReadsExprs sub) (mark : TokenKind) (level : Power) (c : Cursor)
    (h : c.size < n) : (exprAfter sub mark level c h).Gives fun _ d => Reaches c d := by
  unfold exprAfter
  split
  · exact gives_ok (.refl c)
  · rename_i t c1 h1 hmark
    have hpass := (Cursor.accept?_passes hmark).2.reaches
    refine Read.gives_bind (Read.gives_since (hsub level c1 _) h1) ?_
    intro e c2 h2 he
    exact gives_ok (hpass.trans he.reaches)

end Exprs

end TypeWatch.Reading
