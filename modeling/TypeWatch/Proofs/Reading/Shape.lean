import TypeWatch.Proofs.Reading.Expr
import TypeWatch.Proofs.Syntax.Plain

/-! # Expressions and the tokens that they are read from

An expression that is read from spelled tokens is spelled, and if it is plain, it was read from plain tokens
only. There is one lemma for each reader, as for the places that readers reach. -/
namespace TypeWatch.Reading
set_option autoImplicit false

/-! ## What tokens show -/

/-- What is shown by reading on from some tokens to later ones: something that holds if the tokens are spelled,
and something that holds only if those which are read are plain. -/
structure Shows (S P : Prop) (ts us : List Token) : Prop where
  spelled : (∀ t ∈ ts, t.Spelled) → S ∧ ∀ t ∈ us, t.Spelled
  plain : P → (∀ t ∈ us, t.kind.isPlain = true) → ∀ t ∈ ts, t.kind.isPlain = true

namespace Shows

variable {S S' P P' : Prop} {ts us vs : List Token}

theorem here (ts : List Token) : Shows True True ts ts := ⟨fun h => ⟨trivial, h⟩, fun _ => id⟩

theorem trans (h : Shows S P ts us) (h' : Shows S' P' us vs) : Shows (S ∧ S') (P ∧ P') ts vs where
  spelled hts := by
    obtain ⟨hS, hus⟩ := h.spelled hts
    obtain ⟨hS', hvs⟩ := h'.spelled hus
    exact ⟨⟨hS, hS'⟩, hvs⟩
  plain hP hvs := h.plain hP.1 (h'.plain hP.2 hvs)

theorem imp (h : Shows S P ts us) (hS : S → S') (hP : P' → P) : Shows S' P' ts us where
  spelled hts := (h.spelled hts).imp_left hS
  plain hP' := h.plain (hP hP')

/-- Something that is not plain. -/
theorem never (h : Shows S P ts us) (hS : S → S') : Shows S' False ts us := h.imp hS False.elim

theorem token (t : Token) (ts : List Token) : Shows t.Spelled (t.kind.isPlain = true) (t :: ts) ts where
  spelled h := ⟨h t List.mem_cons_self, fun u hu => h u (List.mem_cons_of_mem t hu)⟩
  plain ht h u hu := by
    rcases List.mem_cons.mp hu with rfl | hu
    · exact ht
    · exact h u hu

end Shows

theorem Passes.shows {c d : Cursor} {t : Token} (h : Passes c t d) :
    Shows t.Spelled (t.kind.isPlain = true) c.rest d.rest := by
  rw [h.rest]
  exact .token t d.rest

/-- A token of a kind that is plain. -/
theorem Passes.mark {c d : Cursor} {t : Token} {kind : TokenKind} (h : t.kind = kind ∧ Passes c t d)
    (hkind : kind.isPlain = true) : Shows True True c.rest d.rest :=
  h.2.shows.imp (fun _ => trivial) fun _ => by rw [h.1, hkind]

/-- A token, whatever its kind. -/
theorem Passes.any {c d : Cursor} {t : Token} (h : Passes c t d) : Shows t.Spelled False c.rest d.rest :=
  h.shows.never id

/-- What an expression shows of the tokens between two places. -/
def ShowsExpr (c : Cursor) (e : Expr) (d : Cursor) : Prop := Shows e.Spelled (e.isPlain = true) c.rest d.rest

/-- What is said of a reader of expressions. -/
def ShowsExprs {n : Nat} (sub : Below n) : Prop := ∀ level c h, (sub level c h).Gives (ShowsExpr c)

/-! ## Lists -/

section Items

variable {α : Type} {n : Nat} {item : ItemBelow α n} {S P : α → Prop}

/-- What is said of a reader of items. -/
def ShowsItems (item : ItemBelow α n) (S P : α → Prop) : Prop :=
  ∀ c h, (item c h).Gives fun x d => Shows (S x) (P x) c.rest d.rest

theorem Shows.cons {x : α} {xs : List α} {ts us vs : List Token} (h : Shows (S x) (P x) ts us)
    (h' : Shows (∀ y ∈ xs, S y) (∀ y ∈ xs, P y) us vs) :
    Shows (∀ y ∈ x :: xs, S y) (∀ y ∈ x :: xs, P y) ts vs :=
  (h.trans h').imp (fun hS => List.forall_mem_cons.mpr hS) fun hP => List.forall_mem_cons.mp hP

theorem Shows.none (ts : List Token) : Shows (∀ x ∈ ([] : List α), S x) (∀ x ∈ ([] : List α), P x) ts ts :=
  (here ts).imp (fun _ => nofun) fun _ => trivial

theorem followers_shows (hitem : ShowsItems item S P) (ends : TokenKind → Bool) (c : Cursor) (h : c.size < n) :
    (followers item ends c h).Gives fun xs d => Shows (∀ x ∈ xs, S x) (∀ x ∈ xs, P x) c.rest d.rest := by
  rw [followers]
  split
  · exact gives_ok (.none _)
  · rename_i t c1 h1 hcomma
    have hpass : Shows True True c.rest c1.rest := Passes.mark (Cursor.accept?_passes hcomma) rfl
    split
    · exact gives_ok ((hpass.trans (.none _)).imp And.right fun h => ⟨trivial, h⟩)
    · refine Read.gives_bind (Read.gives_since (hitem c1 _) h1) ?_
      intro x c2 h2 hx
      refine Read.gives_bind (MayRead.gives_since (followers_shows hitem ends c2 _) h2) ?_
      intro xs d h3 hxs
      exact gives_ok ((hpass.trans (hx.cons hxs)).imp And.right fun h => ⟨trivial, h⟩)
termination_by c.size

theorem someItems_shows (hitem : ShowsItems item S P) (ends : TokenKind → Bool) (c : Cursor) (h : c.size < n) :
    (someItems item ends c h).Gives fun xs d => Shows (∀ x ∈ xs, S x) (∀ x ∈ xs, P x) c.rest d.rest := by
  refine Read.gives_bind (hitem c h) ?_
  intro x c1 h1 hx
  refine Read.gives_bind (MayRead.gives_since (followers_shows hitem ends c1 _) h1) ?_
  intro xs d h2 hxs
  exact gives_ok (hx.cons hxs)

theorem anyItems_shows (hitem : ShowsItems item S P) (closing : TokenKind) (c : Cursor) (h : c.size < n) :
    (anyItems item closing c h).Gives fun xs d => Shows (∀ x ∈ xs, S x) (∀ x ∈ xs, P x) c.rest d.rest := by
  unfold anyItems
  split
  · exact gives_ok (.none _)
  · exact Read.gives_moved (someItems_shows hitem _ c h)

end Items

theorem spelledList_iff (es : List Expr) : Expr.spelledList es ↔ ∀ e ∈ es, e.Spelled := by
  induction es with
  | nil => simp [Expr.spelledList]
  | cons e es ih => simp [Expr.spelledList, ih]

/-- What several expressions show. -/
def ShowsAll (c : Cursor) (es : List Expr) (d : Cursor) : Prop :=
  Shows (Expr.spelledList es) (Expr.plainList es = true) c.rest d.rest

theorem showsAll_of_items {c d : Cursor} {es : List Expr}
    (h : Shows (∀ e ∈ es, e.Spelled) (∀ e ∈ es, e.isPlain = true) c.rest d.rest) : ShowsAll c es d :=
  h.imp (spelledList_iff es).mpr (Expr.plainList_iff es).mp

section Exprs

variable {n : Nat} {sub : Below n}

theorem exprList_shows (hsub : ShowsExprs sub) (level : Power) (c : Cursor) (h : c.size < n) :
    (exprList sub level c h).Gives (ShowsExpr c) := by
  refine Read.gives_bind (hsub level c h) ?_
  intro first c1 h1 hfirst
  dsimp only
  split
  · refine Read.gives_bind (MayRead.gives_since (followers_shows (hsub level) _ c1 _) h1) ?_
    intro others d h2 hothers
    have hall : ShowsAll c (first :: others) d := showsAll_of_items (Shows.cons hfirst hothers)
    exact gives_ok (hall.imp (fun h => by rwa [Expr.Spelled]) fun h => by rwa [Expr.isPlain] at h)
  · exact gives_ok hfirst

/-- What an expression shows that may be absent. -/
def ShowsOption (c : Cursor) (o : Option Expr) (d : Cursor) : Prop :=
  Shows (Expr.spelledOption o) False c.rest d.rest

theorem showsOption_none (c : Cursor) : ShowsOption c none c := (Shows.here _).never fun _ => trivial

theorem ShowsExpr.option {c d : Cursor} {e : Expr} (h : ShowsExpr c e d) : ShowsOption c (some e) d :=
  h.never fun h => by rwa [Expr.spelledOption]

theorem exprUnless_shows (hsub : ShowsExprs sub) (ends : TokenKind → Bool) (c : Cursor) (h : c.size < n) :
    (exprUnless sub ends c h).Gives (ShowsOption c) := by
  unfold exprUnless
  split
  · exact gives_ok (showsOption_none c)
  · refine Read.gives_bind (hsub .least c h) ?_
    intro e d h1 he
    exact gives_ok he.option

theorem exprAfter_shows (hsub : ShowsExprs sub) (mark : TokenKind) (level : Power) (c : Cursor)
    (h : c.size < n) : (exprAfter sub mark level c h).Gives (ShowsOption c) := by
  unfold exprAfter
  split
  · exact gives_ok (showsOption_none c)
  · rename_i t c1 h1 hmark
    have hpass := (Cursor.accept?_passes hmark).2.any
    refine Read.gives_bind (Read.gives_since (hsub level c1 _) h1) ?_
    intro e d h2 he
    exact gives_ok ((hpass.trans he.option).never And.right)

/-! ## Comprehensions -/

theorem conditions_shows (hsub : ShowsExprs sub) (c : Cursor) (h : c.size < n) :
    (conditions sub c h).Gives fun es d => Shows (Expr.spelledList es) False c.rest d.rest := by
  rw [conditions]
  split
  · exact gives_ok ((Shows.here _).never fun _ => trivial)
  · rename_i t c1 h1 hif
    have hpass := (Cursor.accept?_passes hif).2.any
    refine Read.gives_bind (Read.gives_since (hsub .conditional c1 _) h1) ?_
    intro e c2 h2 he
    refine Read.gives_bind (MayRead.gives_since (conditions_shows hsub c2 _) h2) ?_
    intro es d h3 hes
    exact gives_ok ((hpass.trans (he.trans hes)).never And.right)
termination_by c.size

theorem asyncMark_shows (c : Cursor) : Shows True False c.rest (asyncMark c).next.rest := by
  unfold asyncMark
  split
  · rename_i t c1 h1 hasync
    exact (Cursor.accept?_passes hasync).2.any.never fun _ => trivial
  · exact (Shows.here _).never id

/-- What loops show. -/
def ShowsClauses (c : Cursor) (cs : List Clause) (d : Cursor) : Prop :=
  Shows (Expr.spelledClauses cs) False c.rest d.rest

theorem clause_shows (hsub : ShowsExprs sub) (c : Cursor) (h : c.size < n) :
    (clause sub c h).Gives fun x d => ShowsClauses c [x] d := by
  have hasync := asyncMark_shows c
  unfold clause
  generalize asyncMark c = mark at hasync ⊢
  obtain ⟨isAsync, c1, h1⟩ := mark
  refine Read.gives_bind (Read.gives_from (c1.expect_gives _) h1) ?_
  intro t c2 h2 hfor
  refine Read.gives_bind (Read.gives_since (exprList_shows hsub .comparison c2 _) h2) ?_
  intro target c3 h3 htarget
  refine Read.gives_bind (Read.gives_since (c3.expect_gives _) h3) ?_
  intro t' c4 h4 hin
  refine Read.gives_bind (Read.gives_since (hsub .conditional c4 _) h4) ?_
  intro iter c5 h5 hiter
  refine Read.gives_bind (MayRead.gives_since (conditions_shows hsub c5 _) h5) ?_
  intro tests d h6 htests
  have hhead := hasync.trans (hfor.2.any.trans htarget)
  have hall := hhead.trans (hin.2.any.trans (hiter.trans htests))
  refine gives_ok (hall.never ?_)
  rintro ⟨⟨-, -, htarget⟩, -, hiter, htests⟩
  simp only [Expr.spelledClauses]
  exact ⟨⟨htarget, hiter, htests⟩, trivial⟩

theorem clauses_shows (hsub : ShowsExprs sub) (c : Cursor) (h : c.size < n) :
    (clauses sub c h).Gives fun cs d => (opensClause c = true → cs ≠ []) ∧ ShowsClauses c cs d := by
  rw [clauses]
  split
  · refine Read.gives_bind (clause_shows hsub c h) ?_
    intro x c1 h1 hx
    refine Read.gives_bind (MayRead.gives_since (clauses_shows hsub c1 _) h1) ?_
    intro xs d h2 hxs
    refine gives_ok ⟨fun _ => List.cons_ne_nil x xs, (hx.trans hxs.2).never ?_⟩
    obtain ⟨target, iter, tests, isAsync⟩ := x
    rintro ⟨hx, hxs⟩
    simp only [Expr.spelledClauses] at hx ⊢
    exact ⟨hx.1, hxs⟩
  · rename_i hopens
    exact gives_ok ⟨fun h => absurd h hopens, (Shows.here _).never fun _ => trivial⟩
termination_by c.size

/-! ## Displays -/

/-- What the rest of a display shows, up to the token that closes it. -/
def ShowsFilling (closing : TokenKind) (c : Cursor) (rest : Filling) (d : Cursor) : Prop :=
  match rest with
  | .loops loops => loops ≠ [] ∧ ShowsClauses c loops d
  | .elements others =>
    Shows (Expr.spelledList others) (Expr.plainList others = true ∧ closing.isPlain = true) c.rest d.rest
  | .alone => Shows True (closing.isPlain = true) c.rest d.rest

theorem filling_shows (hsub : ShowsExprs sub) (closing : TokenKind) (c : Cursor) (h : c.size < n) :
    (filling sub closing c h).Gives (ShowsFilling closing c) := by
  have hmark {t : Token} {c1 d : Cursor} (h : t.kind = closing ∧ Passes c1 t d) :
      Shows True (closing.isPlain = true) c1.rest d.rest :=
    h.2.shows.imp (fun _ => trivial) fun hplain => by rwa [h.1]
  unfold filling
  split
  · rename_i hopens
    refine MayRead.gives_bind (clauses_shows hsub c h) ?_
    intro loops c1 h1 hloops
    refine Read.gives_bind (Read.gives_from (c1.expect_gives closing) h1) ?_
    intro t d h2 hclose
    exact gives_ok ⟨hloops.1 hopens, (hloops.2.trans hclose.2.any).never And.left⟩
  · split
    · refine MayRead.gives_bind (followers_shows (hsub .least) _ c h) ?_
      intro others c1 h1 hothers
      refine Read.gives_bind (Read.gives_from (c1.expect_gives closing) h1) ?_
      intro t d h2 hclose
      exact gives_ok (((showsAll_of_items hothers).trans (hmark hclose)).imp And.left id)
    · refine Read.gives_bind (c.expect_gives closing) ?_
      intro t d h1 hclose
      exact gives_ok (hmark hclose)

theorem ShowsExpr.cons {c c1 d : Cursor} {e : Expr} {es : List Expr} (h : ShowsExpr c e c1) (h' : ShowsAll c1 es d) :
    ShowsAll c (e :: es) d :=
  (h.trans h').imp (fun hS => by rwa [Expr.spelledList]) fun hP => by
    rwa [Expr.plainList, Bool.and_eq_true] at hP

theorem ShowsExpr.comprehension {c c1 d : Cursor} {e : Expr} {loops : List Clause} (h : ShowsExpr c e c1)
    (hsome : loops ≠ []) (h' : ShowsClauses c1 loops d) (s : Span) (kind : ComprehensionKind) :
    ShowsExpr c (.comprehension s kind e none loops) d :=
  (h.trans h').imp (fun hS => by
    rw [Expr.Spelled]
    exact ⟨hS.1, trivial, hsome, hS.2⟩) nofun

theorem parenthesized_shows (hsub : ShowsExprs sub) (start : Position) (c : Cursor) (h : c.size < n) :
    (parenthesized sub start c h).Gives (ShowsExpr c) := by
  unfold parenthesized
  split
  · rename_i t c1 h1 hclose
    have hpass : Shows True True c.rest c1.rest := Passes.mark (Cursor.accept?_passes hclose) rfl
    exact gives_ok (hpass.imp (fun _ => by simp [Expr.Spelled, Expr.spelledList]) fun _ => trivial)
  · refine Read.gives_bind (hsub .least c h) ?_
    intro first c1 h1 hfirst
    refine Read.gives_bind (Read.gives_since (filling_shows hsub _ c1 _) h1) ?_
    intro rest d h2 hrest
    cases rest with
    | loops loops => exact gives_ok (hfirst.comprehension hrest.1 hrest.2 _ _)
    | alone => exact gives_ok ((hfirst.trans hrest).imp And.left fun h => ⟨h, rfl⟩)
    | elements others =>
      have hothers : ShowsAll c1 others d := Shows.imp hrest id fun h => ⟨h, rfl⟩
      exact gives_ok ((hfirst.cons hothers).imp (fun h => by rwa [Expr.Spelled]) fun h => by
        rwa [Expr.isPlain] at h)

theorem listDisplay_shows (hsub : ShowsExprs sub) (start : Position) (c : Cursor) (h : c.size < n) :
    (listDisplay sub start c h).Gives (ShowsExpr c) := by
  have hlist {d : Cursor} {es : List Expr} (s : Span) (h : ShowsAll c es d) : ShowsExpr c (.list s es) d :=
    h.imp (fun h => by rwa [Expr.Spelled]) fun h => by rwa [Expr.isPlain] at h
  unfold listDisplay
  split
  · rename_i t c1 h1 hclose
    have hpass : Shows True True c.rest c1.rest := Passes.mark (Cursor.accept?_passes hclose) rfl
    exact gives_ok (hlist _ (hpass.imp (fun _ => trivial) fun _ => trivial))
  · refine Read.gives_bind (hsub .least c h) ?_
    intro first c1 h1 hfirst
    refine Read.gives_bind (Read.gives_since (filling_shows hsub _ c1 _) h1) ?_
    intro rest d h2 hrest
    cases rest with
    | loops loops => exact gives_ok (hfirst.comprehension hrest.1 hrest.2 _ _)
    | alone =>
      have hnone : ShowsAll c1 [] d := Shows.imp hrest (fun _ => trivial) fun _ => rfl
      exact gives_ok (hlist _ (hfirst.cons hnone))
    | elements others =>
      have hothers : ShowsAll c1 others d := Shows.imp hrest id fun h => ⟨h, rfl⟩
      exact gives_ok (hlist _ (hfirst.cons hothers))

/-- What entries of a dictionary show. -/
def ShowsEntries (c : Cursor) (es : List Entry) (d : Cursor) : Prop :=
  Shows (Expr.spelledEntries es) False c.rest d.rest

theorem entry_shows (hsub : ShowsExprs sub) (c : Cursor) (h : c.size < n) :
    (entry sub c h).Gives fun x d => ShowsEntries c [x] d := by
  unfold entry
  split
  · rename_i t c1 h1 hstars
    have hpass := (Cursor.accept?_passes hstars).2.any
    refine Read.gives_bind (Read.gives_since (hsub .comparison c1 _) h1) ?_
    intro value d h2 hvalue
    exact gives_ok ((hpass.trans hvalue).never fun h => by simpa [Expr.spelledEntries] using h.2)
  · refine Read.gives_bind (hsub .least c h) ?_
    intro key c1 h1 hkey
    refine Read.gives_bind (Read.gives_since (c1.expect_gives _) h1) ?_
    intro t c2 h2 hcolon
    refine Read.gives_bind (Read.gives_since (hsub .least c2 _) h2) ?_
    intro value d h3 hvalue
    refine gives_ok ((hkey.trans (hcolon.2.any.trans hvalue)).never fun h => ?_)
    simp only [Expr.spelledEntries]
    exact ⟨⟨h.1, h.2.2⟩, trivial⟩

theorem spelledEntries_append (es fs : List Entry) :
    Expr.spelledEntries (es ++ fs) ↔ Expr.spelledEntries es ∧ Expr.spelledEntries fs := by
  induction es with
  | nil => simp [Expr.spelledEntries]
  | cons e es ih => cases e <;> simp [Expr.spelledEntries, ih, and_assoc]

theorem spelledEntries_of_forall {es : List Entry} (h : ∀ e ∈ es, Expr.spelledEntries [e]) :
    Expr.spelledEntries es := by
  induction es with
  | nil => trivial
  | cons e es ih =>
    rw [← List.singleton_append, spelledEntries_append]
    exact ⟨h e List.mem_cons_self, ih fun x hx => h x (List.mem_cons_of_mem e hx)⟩

/-- What an expression shows that is not plain, and that is spelled if what was read of it before is. -/
structure ShowsUnplain (before : Prop) (c : Cursor) (e : Expr) (d : Cursor) : Prop where
  notPlain : e.isPlain = false
  shows : Shows (before → e.Spelled) False c.rest d.rest

theorem ShowsUnplain.after {before : Prop} {S P : Prop} {c c1 d : Cursor} {e : Expr}
    (h : Shows S P c.rest c1.rest) (h' : ShowsUnplain before c1 e d) {earlier : Prop}
    (hbefore : earlier → S → before) : ShowsUnplain earlier c e d :=
  ⟨h'.notPlain, (h.trans h'.shows).never fun hS hearlier => hS.2 (hbefore hearlier hS.1)⟩

theorem ShowsUnplain.expr {c d : Cursor} {e : Expr} (h : ShowsUnplain True c e d) : ShowsExpr c e d :=
  h.shows.imp (fun hS => hS trivial) fun hP => absurd (h.notPlain.symm.trans hP) nofun

theorem ShowsExpr.unplain {c d : Cursor} {e : Expr} (h : ShowsExpr c e d) (he : e.isPlain = false) :
    ShowsUnplain True c e d := ⟨he, h.never fun hS _ => hS⟩

theorem dictRest_shows (hsub : ShowsExprs sub) (start : Position) (first : Entry) (c : Cursor) (h : c.size < n) :
    (dictRest sub start first c h).Gives (ShowsUnplain (Expr.spelledEntries [first]) c) := by
  have hitem : ShowsItems (entry sub) (fun x => Expr.spelledEntries [x]) fun _ => False := entry_shows hsub
  refine MayRead.gives_bind (followers_shows hitem (· = .op .closeBrace) c h) ?_
  intro others c1 h1 hothers
  refine Read.gives_bind (Read.gives_from (c1.expect_gives _) h1) ?_
  intro t d h2 hclose
  refine gives_ok ⟨rfl, (hothers.trans hclose.2.any).never fun hS hfirst => ?_⟩
  rw [Expr.Spelled]
  exact spelledEntries_of_forall (List.forall_mem_cons.mpr ⟨hfirst, hS.1⟩)

theorem dictAfterKey_shows (hsub : ShowsExprs sub) (start : Position) (key : Expr) (c : Cursor) (h : c.size < n) :
    (dictAfterKey sub start key c h).Gives (ShowsUnplain key.Spelled c) := by
  refine Read.gives_bind (hsub .least c h) ?_
  intro value c1 h1 hvalue
  dsimp only
  split
  · rename_i hopens
    refine Read.gives_bind (MayRead.gives_since (clauses_shows hsub c1 _) h1) ?_
    intro loops c2 h2 hloops
    refine Read.gives_bind (Read.gives_since (c2.expect_gives _) h2) ?_
    intro t d h3 hclose
    refine gives_ok ⟨rfl, (hvalue.trans (hloops.2.trans hclose.2.any)).never fun hS hkey => ?_⟩
    rw [Expr.Spelled, Expr.spelledOption]
    exact ⟨hkey, hS.1, hloops.1 hopens, hS.2.1⟩
  · refine Read.gives_imp (Read.gives_since (dictRest_shows hsub start _ c1 _) h1) ?_
    intro e he
    refine ShowsUnplain.after hvalue he fun hkey hvalue => ?_
    simp only [Expr.spelledEntries]
    exact ⟨⟨hkey, hvalue⟩, trivial⟩

theorem braceDisplay_shows (hsub : ShowsExprs sub) (start : Position) (c : Cursor) (h : c.size < n) :
    (braceDisplay sub start c h).Gives (ShowsUnplain True c) := by
  unfold braceDisplay
  split
  · rename_i t c1 h1 hclose
    have hpass := (Cursor.accept?_passes hclose).2.any
    exact gives_ok ⟨rfl, hpass.never fun _ _ => by simp [Expr.Spelled, Expr.spelledEntries]⟩
  · split
    · rename_i t c1 h1 hstars
      have hpass := (Cursor.accept?_passes hstars).2.any
      refine Read.gives_bind (Read.gives_since (hsub .comparison c1 _) h1) ?_
      intro value c2 h2 hvalue
      refine Read.gives_imp (Read.gives_since (dictRest_shows hsub start _ c2 _) h2) ?_
      intro e he
      refine ShowsUnplain.after (hpass.trans hvalue) he fun _ hS => ?_
      simpa [Expr.spelledEntries] using hS.2
    · refine Read.gives_bind (hsub .least c h) ?_
      intro first c1 h1 hfirst
      dsimp only
      split
      · rename_i t c2 h2 hcolon
        have hpass := (Cursor.accept?_since_passes hcolon).2.any
        refine Read.gives_imp (Read.gives_since (dictAfterKey_shows hsub start first c2 _) h2) ?_
        intro e he
        exact ShowsUnplain.after (hfirst.trans hpass) he fun _ hS => hS.1
      · refine Read.gives_bind (Read.gives_since (filling_shows hsub _ c1 _) h1) ?_
        intro rest d h2 hrest
        cases rest with
        | loops loops => exact gives_ok ((hfirst.comprehension hrest.1 hrest.2 _ _).unplain rfl)
        | alone =>
          refine gives_ok ⟨rfl, (hfirst.trans hrest).never fun hS _ => ?_⟩
          rw [Expr.Spelled, Expr.spelledList]
          exact ⟨hS.1, trivial⟩
        | elements others =>
          refine gives_ok ⟨rfl, (hfirst.trans hrest).never fun hS _ => ?_⟩
          rw [Expr.Spelled, Expr.spelledList]
          exact hS

/-! ## Parameters -/

/-- Whether the names and the expressions of what stands between two commas of a parameter list are spelled. -/
def ParameterItem.Spelled : ParameterItem → Prop
  | slash | star => True
  | plain _ name hint standard => IsName name ∧ Expr.spelledOption hint ∧ Expr.spelledOption standard
  | variadic _ name hint | variadicKeywords _ name hint => IsName name ∧ Expr.spelledOption hint

theorem expectName_shows (c : Cursor) :
    c.expectName.Gives fun name d => Shows (IsName name) True c.rest d.rest := by
  refine Read.gives_bind (c.expect_gives .name) ?_
  intro t d h1 ht
  exact gives_ok (ht.2.shows.imp (fun hS => hS.name ht.1) fun _ => by rw [ht.1]; rfl)

theorem hintAfter_shows (hsub : ShowsExprs sub) (annotated : Bool) (c : Cursor) (h : c.size < n) :
    (hintAfter sub annotated c h).Gives (ShowsOption c) := by
  unfold hintAfter
  split
  · exact exprAfter_shows hsub _ _ c h
  · exact gives_ok (showsOption_none c)

theorem parameterItem_shows (hsub : ShowsExprs sub) (annotated : Bool) :
    ShowsItems (parameterItem sub annotated) ParameterItem.Spelled fun _ => False := by
  intro c h
  unfold parameterItem
  split
  · rename_i t c1 h1 hslash
    exact gives_ok ((Cursor.accept?_passes hslash).2.any.never fun _ => trivial)
  · split
    · rename_i t c1 h1 hstar
      have hpass := (Cursor.accept?_passes hstar).2.any
      split
      · exact gives_ok (hpass.never fun _ => trivial)
      · rename_i name c2 h2 hname
        obtain ⟨hkind, hpass'⟩ := Cursor.accept?_since_passes hname
        refine Read.gives_bind (MayRead.gives_since (hintAfter_shows hsub annotated c2 _) h2) ?_
        intro hint d h3 hhint
        exact gives_ok ((hpass.trans (hpass'.any.trans hhint)).never fun hS => ⟨hS.2.1.name hkind, hS.2.2⟩)
    · split
      · rename_i t c1 h1 hstars
        have hpass := (Cursor.accept?_passes hstars).2.any
        refine Read.gives_bind (Read.gives_since (expectName_shows c1) h1) ?_
        intro name c2 h2 hname
        refine Read.gives_bind (MayRead.gives_since (hintAfter_shows hsub annotated c2 _) h2) ?_
        intro hint d h3 hhint
        exact gives_ok ((hpass.trans (hname.trans hhint)).never And.right)
      · refine Read.gives_bind (expectName_shows c) ?_
        intro name c1 h1 hname
        refine Read.gives_bind (MayRead.gives_since (hintAfter_shows hsub annotated c1 _) h1) ?_
        intro hint c2 h2 hhint
        refine Read.gives_bind (MayRead.gives_since (exprAfter_shows hsub _ _ c2 _) h2) ?_
        intro standard d h3 hstandard
        exact gives_ok ((hname.trans (Shows.trans hhint hstandard)).never id)

theorem spelledParameters_append (ps qs : List Parameter) :
    Expr.spelledParameters (ps ++ qs) ↔ Expr.spelledParameters ps ∧ Expr.spelledParameters qs := by
  induction ps with
  | nil => simp [Expr.spelledParameters]
  | cons p ps ih =>
    obtain ⟨s, kind, name, hint, standard⟩ := p
    simp [Expr.spelledParameters, ih, and_assoc]

theorem spelledParameters_positionalOnly (ps : List Parameter) :
    Expr.spelledParameters (ps.map positionalOnly) ↔ Expr.spelledParameters ps := by
  induction ps with
  | nil => rfl
  | cons p ps ih =>
    obtain ⟨s, kind, name, hint, standard⟩ := p
    cases kind <;> simp [Expr.spelledParameters, positionalOnly, ih]

theorem spelledParameters_parametersOf (kind : ParameterKind) {before : List Parameter}
    (hbefore : Expr.spelledParameters before) {items : List ParameterItem} (h : ∀ x ∈ items, x.Spelled) :
    Expr.spelledParameters (parametersOf kind before items) := by
  induction items generalizing kind before with
  | nil => exact hbefore
  | cons item items ih =>
    obtain ⟨hitem, hitems⟩ := List.forall_mem_cons.mp h
    have happend {p : Parameter} (hp : Expr.spelledParameters [p]) : Expr.spelledParameters (before ++ [p]) :=
      (spelledParameters_append before [p]).mpr ⟨hbefore, hp⟩
    cases item with
    | slash => exact ih kind ((spelledParameters_positionalOnly before).mpr hbefore) hitems
    | star => exact ih .keywordOnly hbefore hitems
    | plain s name hint standard => exact ih kind (happend ⟨hitem, trivial⟩) hitems
    | variadic s name hint => exact ih .keywordOnly (happend ⟨⟨hitem.1, hitem.2, trivial⟩, trivial⟩) hitems
    | variadicKeywords s name hint => exact ih kind (happend ⟨⟨hitem.1, hitem.2, trivial⟩, trivial⟩) hitems

theorem parameters_shows (hsub : ShowsExprs sub) (closing : TokenKind) (annotated : Bool) (c : Cursor)
    (h : c.size < n) : (parameters sub closing annotated c h).Gives fun ps d =>
      Shows (Expr.spelledParameters ps) False c.rest d.rest := by
  refine MayRead.gives_bind (anyItems_shows (parameterItem_shows hsub annotated) closing c h) ?_
  intro items d h1 hitems
  have hnone : Expr.spelledParameters [] := trivial
  exact gives_ok (hitems.never fun hS => spelledParameters_parametersOf .regular hnone hS)

/-! ## Arguments and indices -/

theorem plainArgument_shows (hsub : ShowsExprs sub) (c : Cursor) (h : c.size < n) :
    (plainArgument sub c h).Gives (ShowsExpr c) := by
  refine Read.gives_bind (hsub .least c h) ?_
  intro e c1 h1 he
  dsimp only
  split
  · rename_i hopens
    refine Read.gives_bind (MayRead.gives_since (clauses_shows hsub c1 _) h1) ?_
    intro loops d h2 hloops
    exact gives_ok (he.comprehension (hloops.1 hopens) hloops.2 _ _)
  · exact gives_ok he

theorem argumentName?_shows {c : Cursor} {a : Advanced String c} (h : argumentName? c = some a) :
    Shows (IsName a.value) False c.rest a.next.rest := by
  unfold argumentName? at h
  split at h
  · cases h
  · rename_i t c1 h1 hname
    obtain ⟨hkind, hpass⟩ := Cursor.accept?_passes hname
    split at h
    · cases h
    · rename_i t' c2 h2 hassign
      obtain rfl := Option.some.inj h
      exact (hpass.any.trans (Cursor.accept?_since_passes hassign).2.any).never fun hS => hS.1.name hkind

theorem argument_shows (hsub : ShowsExprs sub) :
    ShowsItems (argument sub) Expr.Spelled fun e => e.isPlain = true := by
  intro c h
  unfold argument
  split
  · rename_i t c1 h1 hstar
    have hpass := (Cursor.accept?_passes hstar).2.any
    refine Read.gives_bind (Read.gives_since (hsub .comparison c1 _) h1) ?_
    intro value d h2 hvalue
    exact gives_ok ((hpass.trans hvalue).imp (fun hS => by rw [Expr.Spelled]; exact hS.2) (by rintro ⟨⟩))
  · split
    · rename_i t c1 h1 hstars
      have hpass := (Cursor.accept?_passes hstars).2.any
      refine Read.gives_bind (Read.gives_since (hsub .named c1 _) h1) ?_
      intro value d h2 hvalue
      exact gives_ok ((hpass.trans hvalue).imp
        (fun hS => by rw [Expr.Spelled]; exact ⟨by rintro _ ⟨⟩, hS.2⟩) (by rintro ⟨⟩))
    · split
      · rename_i name c1 h1 hname
        have hpass := argumentName?_shows hname
        refine Read.gives_bind (Read.gives_since (hsub .named c1 _) h1) ?_
        intro value d h2 hvalue
        refine gives_ok ((hpass.trans hvalue).imp (fun hS => ?_) (by rintro ⟨⟩))
        rw [Expr.Spelled]
        refine ⟨fun label hlabel => ?_, hS.2⟩
        obtain rfl := Option.some.inj hlabel
        exact hS.1
      · exact plainArgument_shows hsub c h

theorem sliceRest_shows (hsub : ShowsExprs sub) (start : Position) (lower : Option Expr) (c : Cursor)
    (h : c.size < n) : (sliceRest sub start lower c h).Gives (ShowsUnplain (Expr.spelledOption lower) c) := by
  refine Read.gives_bind (c.expect_gives _) ?_
  intro t c1 h1 hcolon
  refine Read.gives_bind (MayRead.gives_since (exprUnless_shows hsub _ c1 _) h1) ?_
  intro upper c2 h2 hupper
  have hhead := hcolon.2.any.trans hupper
  dsimp only
  split
  · refine gives_ok ⟨rfl, hhead.never fun hS hlower => ?_⟩
    rw [Expr.Spelled]
    exact ⟨hlower, hS.2, trivial⟩
  · rename_i t' c3 h3 hcolon'
    have hpass := (Cursor.accept?_since_passes hcolon').2.any
    refine Read.gives_bind (MayRead.gives_since (exprUnless_shows hsub _ c3 _) h3) ?_
    intro step d h4 hstep
    refine gives_ok ⟨rfl, (hhead.trans (hpass.trans hstep)).never fun hS hlower => ?_⟩
    rw [Expr.Spelled]
    exact ⟨hlower, hS.1.2, hS.2.2⟩

theorem index_shows (hsub : ShowsExprs sub) : ShowsItems (index sub) Expr.Spelled fun e => e.isPlain = true := by
  intro c h
  unfold index
  split
  · refine Read.gives_imp (sliceRest_shows hsub _ _ c h) ?_
    exact fun a ha => ShowsUnplain.expr ⟨ha.notPlain, ha.shows.never fun hS _ => hS trivial⟩
  · refine Read.gives_bind (hsub .least c h) ?_
    intro lower c1 h1 hlower
    dsimp only
    split
    · refine Read.gives_imp (Read.gives_since (sliceRest_shows hsub _ _ c1 _) h1) ?_
      exact fun a ha => (ShowsUnplain.after hlower ha fun _ hS => hS).expr
    · exact gives_ok hlower

theorem indices_shows (hsub : ShowsExprs sub) (c : Cursor) (h : c.size < n) :
    (indices sub c h).Gives (ShowsExpr c) := by
  refine Read.gives_bind (index_shows hsub c h) ?_
  intro first c1 h1 hfirst
  dsimp only
  split
  · refine Read.gives_bind (MayRead.gives_since (followers_shows (index_shows hsub) _ c1 _) h1) ?_
    intro others d h2 hothers
    have hall := showsAll_of_items (Shows.cons hfirst hothers)
    exact gives_ok (hall.imp (fun h => by rwa [Expr.Spelled]) fun h => by rwa [Expr.isPlain] at h)
  · exact gives_ok hfirst

end Exprs

end TypeWatch.Reading
