import TypeWatch.Proofs.Reading.Expr
import TypeWatch.Proofs.Syntax.Node

/-! # Readers of expressions lay nodes

What a reader reads between two places are nodes that stand there one after the other (`Lays`), each of them
tidy. Each kind of node has its parts from readers between its beginning and its end, which makes it tidy as
well (`Lays.node`). -/
namespace TypeWatch.Reading
set_option autoImplicit false

/-! ## Nodes between two places -/

/-- A place in a stream of tokens in their order, which are among some tokens. -/
structure Cursor.Among (tokens : List Token) (c : Cursor) : Prop where
  sound : c.Sound
  subset : ∀ t ∈ c.rest, t ∈ tokens

/-- Nodes that are read one after the other between two places. -/
structure Lays (tokens : List Token) (c : Cursor) (ns : List Node) (d : Cursor) : Prop where
  reaches : Reaches c d
  ahead : ∀ n ∈ ns, c.Ahead n.span.start
  unhinted : ∀ n ∈ ns, n.Unhinted
  strung : c.Among tokens → Node.Strung c.lastEnd ns d.lastEnd
  tidy : c.Among tokens → ∀ n ∈ ns, n.Tidy tokens

/-- What is read to a place begins with the first token ahead. -/
structure Opens (c : Cursor) (start : Position) (d : Cursor) : Prop where
  reads : Reads c start d
  position_eq : c.position = start

variable {tokens : List Token} {c c1 c2 d : Cursor} {ns ms : List Node} {start : Position}

theorem Reaches.among (h : Reaches c d) (hc : c.Among tokens) : d.Among tokens :=
  ⟨h.sound hc.sound, fun t ht => hc.subset t (h.suffix.subset ht)⟩

/-- Nothing ahead begins before the first token. -/
theorem Cursor.Sound.position_le (h : c.Sound) {p : Position} (hp : c.Ahead p) : c.position ≤ p := by
  obtain ⟨t, ht, _, rfl⟩ := hp
  have hordered := h.ordered
  have hproper := h.proper
  unfold position token
  cases hrest : c.rest with
  | nil => exact absurd (hrest ▸ ht) List.not_mem_nil
  | cons u rest =>
    rw [hrest] at ht hordered hproper
    rcases List.mem_cons.mp ht with rfl | ht
    · exact Position.le_refl _
    · have hbefore := ((List.pairwise_cons.mp hordered).1 t ht).1
      exact Position.le_trans (hproper u List.mem_cons_self).le hbefore

namespace Opens

theorem reaching (h : Opens c start c1) (h' : Reaches c1 d) : Opens c start d :=
  ⟨h.reads.reaching h', h.position_eq⟩

theorem reaches (h : Opens c start d) : Reaches c d := h.reads.reaches

end Opens

theorem Passes.opens {t : Token} (h : Passes c t d) (hno : t.kind.isLayout = false) : Opens c t.span.start d :=
  ⟨h.reads hno, h.position_eq⟩

namespace Lays

theorem nil (h : Reaches c d) : Lays tokens c [] d :=
  ⟨h, nofun, nofun, fun hc => h.le hc.sound, fun _ => nofun⟩

theorem append (h : Lays tokens c ns c1) (h' : Lays tokens c1 ms d) : Lays tokens c (ns ++ ms) d where
  reaches := h.reaches.trans h'.reaches
  ahead n hn := by
    rcases List.mem_append.mp hn with hn | hn
    · exact h.ahead n hn
    · exact h.reaches.ahead (h'.ahead n hn)
  unhinted n hn := by
    rcases List.mem_append.mp hn with hn | hn
    · exact h.unhinted n hn
    · exact h'.unhinted n hn
  strung hc := (h.strung hc).append (h'.strung (h.reaches.among hc))
  tidy hc n hn := by
    rcases List.mem_append.mp hn with hn | hn
    · exact h.tidy hc n hn
    · exact h'.tidy (h.reaches.among hc) n hn

theorem reaching (h : Lays tokens c ns c1) (h' : Reaches c1 d) : Lays tokens c ns d := by
  have hall := h.append (.nil h')
  rwa [List.append_nil] at hall

theorem after (h : Reaches c c1) (h' : Lays tokens c1 ns d) : Lays tokens c ns d := (nil h).append h'

end Lays

/-! ## Nodes with parts -/

/-- A node with such parts may begin with the first of them or with the first token. -/
def BeginsAt (c : Cursor) (ns : List Node) (p : Position) (d : Cursor) : Prop :=
  (ns.head?.map fun k => k.span.start) = some p ∨ Opens c p d

/-- A node with such parts may end with the last of them or with the last token. -/
def EndsAt (ns : List Node) (q : Position) (d : Cursor) : Prop :=
  (ns.getLast?.map fun k => k.span.stop) = some q ∨ q = d.lastEnd

namespace Lays

variable {p q : Position}

theorem ahead_start (h : Lays tokens c ns d) (hstart : BeginsAt c ns p d) : c.Ahead p := by
  rcases hstart with hfirst | hopen
  · obtain ⟨k, hk, heq⟩ := Option.map_eq_some_iff.mp hfirst
    rw [← heq]
    exact h.ahead k (List.mem_of_mem_head? hk)
  · exact hopen.reads.ahead

theorem strung_start (h : Lays tokens c ns d) (hstart : BeginsAt c ns p d) (hc : c.Among tokens) :
    Node.Strung p ns d.lastEnd := by
  have hstrung := h.strung hc
  rcases hstart with hfirst | hopen
  · obtain ⟨k, hk, heq⟩ := Option.map_eq_some_iff.mp hfirst
    rw [← heq]
    exact hstrung.from_first hk
  · cases ns with
    | nil => exact Position.le_of_lt (hopen.reads.behind hc.sound)
    | cons k ks =>
      have hle := hc.sound.position_le (h.ahead k List.mem_cons_self)
      rw [hopen.position_eq] at hle
      exact ⟨hle, hstrung.2⟩

theorem strung_stop (h : Lays tokens c ns d) (hstart : BeginsAt c ns p d) (hstop : EndsAt ns q d)
    (hc : c.Among tokens) : Node.Strung p ns q ∧ q ≤ d.lastEnd := by
  have hstrung := h.strung_start hstart hc
  rcases hstop with hlast | hend
  · obtain ⟨k, hk, heq⟩ := Option.map_eq_some_iff.mp hlast
    rw [← heq]
    exact ⟨hstrung.to_last hk, (hstrung.within (List.mem_of_getLast? hk)).2⟩
  · rw [hend]
    exact ⟨hstrung, Position.le_refl _⟩

theorem start_lt_stop (h : Lays tokens c ns d) (hstart : BeginsAt c ns p d) (hstop : EndsAt ns q d)
    (hc : c.Among tokens) : p < q := by
  have hstrung := (h.strung_stop hstart hstop hc).1
  cases ns with
  | nil =>
    rcases hstart with hfirst | hopen
    · exact absurd hfirst nofun
    · rcases hstop with hlast | hend
      · exact absurd hlast nofun
      · rw [hend]
        exact hopen.reads.behind hc.sound
  | cons k ks => exact hstrung.lt List.mem_cons_self

theorem stop_token (h : Lays tokens c ns d) (hstart : BeginsAt c ns p d) (hstop : EndsAt ns q d)
    (hc : c.Among tokens) : ∃ t ∈ tokens, t.span.stop = q := by
  have hlt := h.start_lt_stop hstart hstop hc
  rcases hstop with hlast | hend
  · obtain ⟨k, hk, heq⟩ := Option.map_eq_some_iff.mp hlast
    rw [← heq]
    exact (h.tidy hc k (List.mem_of_getLast? hk)).marked.stop
  · -- the place has moved, so that a token is behind it
    rw [hend] at hlt ⊢
    rcases h.reaches.stop with hsame | ⟨t, ht, _, heq⟩
    · have hle := hc.sound.le_of_ahead (h.ahead_start hstart)
      rw [hsame] at hlt
      exact absurd (Position.lt_of_le_of_lt hle hlt) (Position.lt_irrefl _)
    · exact ⟨t, hc.subset t ht, heq.symm⟩

/-- A node with its parts between two places stands there itself. -/
theorem node {n : Node} (h : Lays tokens c n.parts d) (hplain : n.Plain)
    (hstart : BeginsAt c n.parts n.span.start d) (hstop : EndsAt n.parts n.span.stop d) :
    Lays tokens c [n] d := by
  have hahead := h.ahead_start hstart
  have hmarked (hc : c.Among tokens) : n.Marked tokens := by
    refine ⟨?_, h.stop_token hstart hstop hc, h.start_lt_stop hstart hstop hc⟩
    obtain ⟨t, ht, _, heq⟩ := hahead
    exact ⟨t, hc.subset t ht, heq⟩
  refine ⟨h.reaches, ?_, ?_, fun hc => ?_, fun hc => ?_⟩
  · simpa using hahead
  · simpa using Node.Unhinted.mk hplain h.unhinted
  · exact ⟨hc.sound.le_of_ahead hahead, (hmarked hc).lt, (h.strung_stop hstart hstop hc).2⟩
  · simpa using Node.Tidy.mk (hmarked hc) (h.strung_stop hstart hstop hc).1 (h.tidy hc)

end Lays

/-! ## Readers -/

/-- An expression is read at a place, from the first token ahead on. -/
structure LaysExpr (tokens : List Token) (c : Cursor) (e : Expr) (d : Cursor) : Prop where
  opens : Opens c c.position d
  lays : Lays tokens c [.expr e] d

/-- What is said of a reader of expressions. -/
def LaysExprs (tokens : List Token) {n : Nat} (sub : Below n) : Prop :=
  ∀ level c h, (sub level c h).Gives (LaysExpr tokens c)

/-- What items of a list are read to make nodes one after the other. -/
theorem Chain.lays {α : Type} {nodes : α → List Node} {xs : List α}
    (h : Chain (fun c x d => Lays tokens c (nodes x) d) c xs d) : Lays tokens c (xs.flatMap nodes) d := by
  induction h with
  | nil h => exact .nil h
  | cons h hx _ ih => exact .after h (hx.append ih)

theorem Chain.imp {α : Type} {P Q : Cursor → α → Cursor → Prop} {xs : List α}
    (hpq : ∀ {c x d}, P c x d → Q c x d) (h : Chain P c xs d) : Chain Q c xs d := by
  induction h with
  | nil h => exact .nil h
  | cons h hx _ ih => exact .cons h (hpq hx) ih

theorem Chain.laysExprs {es : List Expr} (h : Chain (LaysExpr tokens) c es d) :
    Lays tokens c (es.map .expr) d := by
  have hlays := (h.imp (Q := fun c e d => Lays tokens c [Node.expr e] d) fun he => he.lays).lays
  rwa [← List.map_eq_flatMap] at hlays

namespace Opens

variable {c0 : Cursor} {e : Expr}

theorem here (h : Opens c start d) : Opens c c.position d := by
  rw [h.position_eq]
  exact h

/-- An expression that begins with the first token, and has its parts after it. -/
theorem encloses (hopen : Opens c0 e.span.start c) (h : Lays tokens c (Node.expr e).parts d)
    (hplain : (Node.expr e).Plain) (hstop : EndsAt (Node.expr e).parts e.span.stop d) :
    LaysExpr tokens c0 e d :=
  ⟨(hopen.reaching h.reaches).here,
    .node (.after hopen.reaches h) hplain (Or.inr (hopen.reaching h.reaches)) hstop⟩

/-- An expression that stands after the first token. -/
theorem contains (hopen : Opens c0 start c) (h : Lays tokens c [.expr e] d) : LaysExpr tokens c0 e d :=
  ⟨(hopen.reaching h.reaches).here, .after hopen.reaches h⟩

end Opens

theorem Passes.opens_of_kind {t : Token} {kind : TokenKind} (h : t.kind = kind ∧ Passes c t d)
    (hno : kind.isLayout = false) : Opens c t.span.start d := h.2.opens (by rw [h.1, hno])

section Exprs

variable {n : Nat} {sub : Below n}

/-! ## Lists -/

theorem exprList_lays (hsub : LaysExprs tokens sub) (level : Power) (c : Cursor) (h : c.size < n) :
    (exprList sub level c h).Gives (LaysExpr tokens c) := by
  refine Read.gives_bind (hsub level c h) ?_
  intro first c1 h1 hfirst
  dsimp only
  split
  · refine Read.gives_bind (MayRead.gives_since (followers_gives (hsub level) _ c1 _) h1) ?_
    intro others d h2 hothers
    have hparts := hfirst.lays.append hothers.laysExprs
    exact gives_ok ⟨hfirst.opens.reaching hothers.laysExprs.reaches,
      .node (n := .expr (.tuple _ (first :: others))) hparts trivial (Or.inl rfl) (Or.inr rfl)⟩
  · exact gives_ok hfirst

/-- An expression that may be absent. -/
def LaysOption (tokens : List Token) (c : Cursor) (e : Option Expr) (d : Cursor) : Prop :=
  Lays tokens c (e.toList.map .expr) d

theorem exprUnless_lays (hsub : LaysExprs tokens sub) (ends : TokenKind → Bool) (c : Cursor) (h : c.size < n) :
    (exprUnless sub ends c h).Gives (LaysOption tokens c) := by
  unfold exprUnless
  split
  · exact gives_ok (.nil (.refl c))
  · refine Read.gives_bind (hsub .least c h) ?_
    intro e c1 h1 he
    exact gives_ok he.lays

theorem exprAfter_lays (hsub : LaysExprs tokens sub) (mark : TokenKind) (level : Power) (c : Cursor)
    (h : c.size < n) : (exprAfter sub mark level c h).Gives (LaysOption tokens c) := by
  unfold exprAfter
  split
  · exact gives_ok (.nil (.refl c))
  · rename_i t c1 h1 hmark
    refine Read.gives_bind (Read.gives_since (hsub level c1 _) h1) ?_
    intro e c2 h2 he
    exact gives_ok (.after (Cursor.accept?_passes hmark).2.reaches he.lays)

/-! ## Comprehensions -/

theorem conditions_lays (hsub : LaysExprs tokens sub) (c : Cursor) (h : c.size < n) :
    (conditions sub c h).Gives fun es d => Lays tokens c (es.map .expr) d := by
  rw [conditions]
  split
  · exact gives_ok (.nil (.refl c))
  · rename_i t c1 h1 hif
    refine Read.gives_bind (Read.gives_since (hsub .conditional c1 _) h1) ?_
    intro e c2 h2 he
    refine Read.gives_bind (MayRead.gives_since (conditions_lays hsub c2 _) h2) ?_
    intro es d h3 hes
    exact gives_ok (.after (Cursor.accept?_passes hif).2.reaches (he.lays.append hes))
termination_by c.size

/-- The expressions of loops. -/
def laidLoops (loops : List Clause) : List Node := (loops.flatMap Clause.parts).map .expr

theorem clause_lays (hsub : LaysExprs tokens sub) (c : Cursor) (h : c.size < n) :
    (clause sub c h).Gives fun x d => Lays tokens c (laidLoops [x]) d := by
  have hasync := asyncMark_reaches c
  unfold clause
  generalize asyncMark c = mark at hasync ⊢
  obtain ⟨isAsync, c1, h1⟩ := mark
  refine Read.gives_bind (Read.gives_from (c1.expect_gives _) h1) ?_
  intro t c2 h2 hfor
  refine Read.gives_bind (Read.gives_since (exprList_lays hsub .comparison c2 _) h2) ?_
  intro target c3 h3 htarget
  refine Read.gives_bind (Read.gives_since (c3.expect_gives _) h3) ?_
  intro t' c4 h4 hin
  refine Read.gives_bind (Read.gives_since (hsub .conditional c4 _) h4) ?_
  intro iter c5 h5 hiter
  refine Read.gives_bind (MayRead.gives_since (conditions_lays hsub c5 _) h5) ?_
  intro tests d h6 htests
  have htarget' := htarget.lays.reaching hin.2.reaches
  have hparts := (htarget'.append hiter.lays).append htests
  refine gives_ok (.after (hasync.trans hfor.2.reaches) ?_)
  simpa [laidLoops, Clause.parts] using hparts

theorem clauses_lays (hsub : LaysExprs tokens sub) (c : Cursor) (h : c.size < n) :
    (clauses sub c h).Gives fun xs d => Lays tokens c (laidLoops xs) d := by
  rw [clauses]
  split
  · refine Read.gives_bind (clause_lays hsub c h) ?_
    intro x c1 h1 hx
    refine Read.gives_bind (MayRead.gives_since (clauses_lays hsub c1 _) h1) ?_
    intro xs d h2 hxs
    have hall := hx.append hxs
    rw [laidLoops, laidLoops, ← List.map_append, ← List.flatMap_append] at hall
    exact gives_ok hall
  · exact gives_ok (.nil (.refl c))
termination_by c.size

/-! ## Displays -/

/-- The expressions of the rest of a display. -/
def Filling.laid : Filling → List Node
  | loops clauses => laidLoops clauses
  | alone => []
  | elements others => others.map .expr

theorem filling_lays (hsub : LaysExprs tokens sub) (closing : TokenKind) (c : Cursor) (h : c.size < n) :
    (filling sub closing c h).Gives fun x d => Lays tokens c x.laid d := by
  unfold filling
  split
  · refine MayRead.gives_bind (clauses_lays hsub c h) ?_
    intro loops c1 h1 hloops
    refine Read.gives_bind (Read.gives_from (c1.expect_gives closing) h1) ?_
    intro t d h2 hclose
    exact gives_ok (hloops.reaching hclose.2.reaches)
  · split
    · refine MayRead.gives_bind (followers_gives (hsub .least) _ c h) ?_
      intro others c1 h1 hothers
      refine Read.gives_bind (Read.gives_from (c1.expect_gives closing) h1) ?_
      intro t d h2 hclose
      exact gives_ok (hothers.laysExprs.reaching hclose.2.reaches)
    · refine Read.gives_bind (c.expect_gives closing) ?_
      intro t d h1 hclose
      exact gives_ok (.nil hclose.2.reaches)

variable {c0 : Cursor}

theorem parenthesized_lays (hsub : LaysExprs tokens sub) (c : Cursor) (h : c.size < n)
    (hopen : Opens c0 start c) : (parenthesized sub start c h).Gives (LaysExpr tokens c0) := by
  unfold parenthesized
  split
  · rename_i t c1 h1 hclose
    exact gives_ok (hopen.encloses (.nil (Cursor.accept?_passes hclose).2.reaches) trivial (Or.inr rfl))
  · refine Read.gives_bind (hsub .least c h) ?_
    intro first c1 h1 hfirst
    refine Read.gives_bind (Read.gives_since (filling_lays hsub _ c1 _) h1) ?_
    intro rest d h2 hrest
    have hparts := hfirst.lays.append hrest
    cases rest with
    | loops loops => exact gives_ok (hopen.encloses hparts trivial (Or.inr rfl))
    | alone => exact gives_ok (hopen.contains hparts)
    | elements others => exact gives_ok (hopen.encloses hparts trivial (Or.inr rfl))

theorem listDisplay_lays (hsub : LaysExprs tokens sub) (c : Cursor) (h : c.size < n)
    (hopen : Opens c0 start c) : (listDisplay sub start c h).Gives (LaysExpr tokens c0) := by
  unfold listDisplay
  split
  · rename_i t c1 h1 hclose
    exact gives_ok (hopen.encloses (.nil (Cursor.accept?_passes hclose).2.reaches) trivial (Or.inr rfl))
  · refine Read.gives_bind (hsub .least c h) ?_
    intro first c1 h1 hfirst
    refine Read.gives_bind (Read.gives_since (filling_lays hsub _ c1 _) h1) ?_
    intro rest d h2 hrest
    have hparts := hfirst.lays.append hrest
    cases rest <;> exact gives_ok (hopen.encloses hparts trivial (Or.inr rfl))

theorem entry_lays (hsub : LaysExprs tokens sub) (c : Cursor) (h : c.size < n) :
    (entry sub c h).Gives fun x d => Lays tokens c (x.parts.map .expr) d := by
  unfold entry
  split
  · rename_i t c1 h1 hstars
    refine Read.gives_bind (Read.gives_since (hsub .comparison c1 _) h1) ?_
    intro value d h2 hvalue
    exact gives_ok (.after (Cursor.accept?_passes hstars).2.reaches hvalue.lays)
  · refine Read.gives_bind (hsub .least c h) ?_
    intro key c1 h1 hkey
    refine Read.gives_bind (Read.gives_since (c1.expect_gives _) h1) ?_
    intro t c2 h2 hcolon
    refine Read.gives_bind (Read.gives_since (hsub .least c2 _) h2) ?_
    intro value d h3 hvalue
    exact gives_ok ((hkey.lays.reaching hcolon.2.reaches).append hvalue.lays)

theorem dictRest_lays (hsub : LaysExprs tokens sub) (first : Entry) (c : Cursor) (h : c.size < n)
    (hopen : Opens c0 start c1) (hfirst : Lays tokens c1 (first.parts.map .expr) c) :
    (dictRest sub start first c h).Gives (LaysExpr tokens c0) := by
  refine MayRead.gives_bind (followers_gives (entry_lays hsub) (· = .op .closeBrace) c h) ?_
  intro others c2 h1 hothers
  refine Read.gives_bind (Read.gives_from (c2.expect_gives _) h1) ?_
  intro t d h2 hclose
  have hparts := hfirst.append (hothers.lays.reaching hclose.2.reaches)
  rw [← List.map_flatMap, ← List.map_append] at hparts
  exact gives_ok (hopen.encloses hparts trivial (Or.inr rfl))

theorem dictAfterKey_lays (hsub : LaysExprs tokens sub) (key : Expr) (c : Cursor) (h : c.size < n)
    (hopen : Opens c0 start c1) (hkey : Lays tokens c1 [.expr key] c) :
    (dictAfterKey sub start key c h).Gives (LaysExpr tokens c0) := by
  refine Read.gives_bind (hsub .least c h) ?_
  intro value c2 h1 hvalue
  have hpair := hkey.append hvalue.lays
  dsimp only
  split
  · refine Read.gives_bind (MayRead.gives_since (clauses_lays hsub c2 _) h1) ?_
    intro loops c3 h2 hloops
    refine Read.gives_bind (Read.gives_since (c3.expect_gives _) h2) ?_
    intro t d h3 hclose
    have hparts := hpair.append (hloops.reaching hclose.2.reaches)
    exact gives_ok (hopen.encloses hparts trivial (Or.inr rfl))
  · exact Read.gives_since (dictRest_lays hsub (.pair key value) c2 _ hopen hpair) h1

theorem braceDisplay_lays (hsub : LaysExprs tokens sub) (c : Cursor) (h : c.size < n)
    (hopen : Opens c0 start c) : (braceDisplay sub start c h).Gives (LaysExpr tokens c0) := by
  unfold braceDisplay
  split
  · rename_i t c1 h1 hclose
    exact gives_ok (hopen.encloses (.nil (Cursor.accept?_passes hclose).2.reaches) trivial (Or.inr rfl))
  · split
    · rename_i t c1 h1 hstars
      refine Read.gives_bind (Read.gives_since (hsub .comparison c1 _) h1) ?_
      intro value c2 h2 hvalue
      have hfirst := Lays.after (Cursor.accept?_passes hstars).2.reaches hvalue.lays
      exact Read.gives_since (dictRest_lays hsub (.unpack value) c2 _ hopen hfirst) h2
    · refine Read.gives_bind (hsub .least c h) ?_
      intro first c1 h1 hfirst
      dsimp only
      split
      · rename_i t c2 h2 hcolon
        have hkey := hfirst.lays.reaching (Cursor.accept?_since_passes hcolon).2.reaches
        exact Read.gives_since (dictAfterKey_lays hsub first c2 _ hopen hkey) h2
      · refine Read.gives_bind (Read.gives_since (filling_lays hsub _ c1 _) h1) ?_
        intro rest d h2 hrest
        have hparts := hfirst.lays.append hrest
        cases rest <;> exact gives_ok (hopen.encloses hparts trivial (Or.inr rfl))

end Exprs

end TypeWatch.Reading
