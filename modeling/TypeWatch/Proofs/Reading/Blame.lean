import TypeWatch.Proofs.Reading.NestedExpr

/-! # Where readers of expressions fail

A reader that fails does so at the beginning of a token (`Blames`): of the token ahead, or of the first one of an
expression that was read and cannot stand where it does. A reader that succeeds leaves a place in the same stream,
so that one lemma on binds (`Read.Stays.bind`) puts the readers together. -/
namespace TypeWatch.Reading
set_option autoImplicit false

/-! ## Places and failures -/

/-- A place in a stream that stands, with the token that ends it, among some tokens. -/
structure Cursor.Within (tokens : List Token) (c : Cursor) : Prop where
  among : c.Among tokens
  last : c.last ∈ tokens

/-- A token begins at a position. -/
def BeginsToken (tokens : List Token) (p : Position) : Prop := ∃ t ∈ tokens, t.span.start = p

/-- What is read has some property, or the reading fails at the beginning of a token. -/
def Blames {β : Type} (tokens : List Token) (r : Except SyntaxError β) (P : β → Prop) : Prop :=
  match r with
  | .ok b => P b
  | .error e => BeginsToken tokens e.position

section Binds

variable {tokens : List Token} {α β : Type} {c d : Cursor} {P : β → Prop}

/-- What is read leaves a place among the tokens. -/
def Read.Stays (tokens : List Token) (r : Read α c) : Prop :=
  Blames tokens r fun a => a.next.Within tokens

def MayRead.Stays (tokens : List Token) (r : MayRead α c) : Prop :=
  Blames tokens r fun a => a.next.Within tokens

theorem Reaches.within (h : Reaches c d) (hc : c.Within tokens) : d.Within tokens :=
  ⟨h.among hc.among, h.last ▸ hc.last⟩

theorem Cursor.Within.begins (h : c.Within tokens) : BeginsToken tokens c.position := by
  refine ⟨c.token, ?_, rfl⟩
  unfold Cursor.token
  cases hrest : c.rest with
  | nil => exact h.last
  | cons t rest => exact h.among.subset t (by simp [hrest])

/-- What is ahead begins with one of the tokens. -/
theorem Cursor.Ahead.begins {p : Position} (h : c.Ahead p) (hc : c.Within tokens) : BeginsToken tokens p := by
  obtain ⟨t, ht, -, hp⟩ := h
  exact ⟨t, hc.among.subset t ht, hp⟩

theorem blames_ok {b : β} (h : P b) : Blames tokens (.ok b) P := h

theorem blames_fail (hc : c.Within tokens) (fault : Fault) : Blames tokens (c.fail fault) P := hc.begins

theorem blames_unexpected (hc : c.Within tokens) : Blames tokens c.unexpected P := hc.begins

/-- A step that gives nothing but leave to go on. -/
theorem blames_bind_check {r : Except SyntaxError α} {f : α → Except SyntaxError β} (hr : Blames tokens r fun _ => True)
    (hf : ∀ a, Blames tokens (f a) P) : Blames tokens (r >>= f) P := by
  cases r with
  | error e => exact hr
  | ok a => exact hf a

namespace Read.Stays

variable {r : Read α c}

/-- A reading and what follows it, which may depend on what the reading gives. -/
theorem bind_of {f : Advanced α c → Except SyntaxError β} {Q : α → Cursor → Prop} (hr : r.Stays tokens)
    (hgives : r.Gives Q) (hf : ∀ x d h, Q x d → d.Within tokens → Blames tokens (f ⟨x, d, h⟩) P) :
    Blames tokens (r >>= f) P := by
  cases r with
  | error e => exact hr
  | ok a => exact hf a.value a.next a.lt (hgives a rfl) hr

theorem bind {f : Advanced α c → Except SyntaxError β} (hr : r.Stays tokens)
    (hf : ∀ x d h, d.Within tokens → Blames tokens (f ⟨x, d, h⟩) P) : Blames tokens (r >>= f) P :=
  hr.bind_of (Q := fun _ _ => True) (fun _ _ => trivial) fun x d h _ => hf x d h

theorem map {f : Advanced α c → β} (hr : r.Stays tokens) (hf : ∀ a, a.next.Within tokens → P (f a)) :
    Blames tokens (r.map f) P := by
  cases r with
  | error e => exact hr
  | ok a => exact hf a hr

theorem since {r : Read α d} (hr : r.Stays tokens) (h : d.size < c.size) : (r.since h).Stays tokens :=
  hr.map fun _ ha => ha

theorem «from» {r : Read α d} (hr : r.Stays tokens) (h : d.size ≤ c.size) : (r.from h).Stays tokens :=
  hr.map fun _ ha => ha

theorem moved (hr : r.Stays tokens) : r.moved.Stays tokens := hr.map fun _ ha => ha

end Read.Stays

namespace MayRead.Stays

variable {r : MayRead α c}

theorem bind_of {f : Moved α c → Except SyntaxError β} {Q : α → Cursor → Prop} (hr : r.Stays tokens)
    (hgives : r.Gives Q) (hf : ∀ x d h, Q x d → d.Within tokens → Blames tokens (f ⟨x, d, h⟩) P) :
    Blames tokens (r >>= f) P := by
  cases r with
  | error e => exact hr
  | ok a => exact hf a.value a.next a.le (hgives a rfl) hr

theorem bind {f : Moved α c → Except SyntaxError β} (hr : r.Stays tokens)
    (hf : ∀ x d h, d.Within tokens → Blames tokens (f ⟨x, d, h⟩) P) : Blames tokens (r >>= f) P :=
  hr.bind_of (Q := fun _ _ => True) (fun _ _ => trivial) fun x d h _ => hf x d h

theorem since {r : MayRead α d} (hr : r.Stays tokens) (h : d.size < c.size) : (r.since h).Stays tokens := by
  cases r with
  | error e => exact hr
  | ok a => exact hr

end MayRead.Stays

/-! ## Tokens -/

namespace Cursor

theorem next?_within {a : Advanced Token c} (h : c.next? = some a) (hc : c.Within tokens) : a.next.Within tokens :=
  (next?_passes h).reaches.within hc

theorem accept?_within {kind : TokenKind} {a : Advanced Token c} (h : c.accept? kind = some a) (hc : c.Within tokens) :
    a.next.Within tokens := (accept?_passes h).2.reaches.within hc

theorem accept?_since_within {kind : TokenKind} {hlt : d.size < c.size} {a : Advanced Token c}
    (h : (d.accept? kind).since hlt = some a) (hd : d.Within tokens) : a.next.Within tokens :=
  (accept?_since_passes h).2.reaches.within hd

namespace Within

theorem demand (hc : c.Within tokens) (kind : TokenKind) (fault : Fault) : (c.demand kind fault).Stays tokens := by
  unfold Cursor.demand
  split
  · rename_i a ha
    exact blames_ok (accept?_within ha hc)
  · exact blames_fail hc fault

theorem expect (hc : c.Within tokens) (kind : TokenKind) : (c.expect kind).Stays tokens := hc.demand kind _

theorem expectName (hc : c.Within tokens) : c.expectName.Stays tokens := by
  apply (hc.expect .name).bind
  intro t d h hd
  exact blames_ok hd

end Within

end Cursor

end Binds

/-! ## Lists -/

section Items

variable {tokens : List Token} {α : Type} {n : Nat} {item : ItemBelow α n}

theorem followers_stays (hitem : ∀ c h, c.Within tokens → (item c h).Stays tokens) (ends : TokenKind → Bool) (c : Cursor)
    (h : c.size < n) (hc : c.Within tokens) : (followers item ends c h).Stays tokens := by
  rw [followers]
  split
  · exact blames_ok hc
  · rename_i t c1 h1 hcomma
    have hc1 := Cursor.accept?_within hcomma hc
    split
    · exact blames_ok hc1
    · refine ((hitem c1 _ hc1).since h1).bind ?_
      intro x c2 h2 hc2
      apply ((followers_stays hitem ends c2 _ hc2).since h2).bind
      intro xs d h3 hd
      exact blames_ok hd
termination_by c.size

theorem someItems_stays (hitem : ∀ c h, c.Within tokens → (item c h).Stays tokens) (ends : TokenKind → Bool) (c : Cursor)
    (h : c.size < n) (hc : c.Within tokens) : (someItems item ends c h).Stays tokens := by
  apply (hitem c h hc).bind
  intro x c1 h1 hc1
  apply ((followers_stays hitem ends c1 _ hc1).since h1).bind
  intro xs d h2 hd
  exact blames_ok hd

theorem anyItems_stays (hitem : ∀ c h, c.Within tokens → (item c h).Stays tokens) (closing : TokenKind) (c : Cursor)
    (h : c.size < n) (hc : c.Within tokens) : (anyItems item closing c h).Stays tokens := by
  unfold anyItems
  split
  · exact blames_ok hc
  · exact (someItems_stays hitem _ c h hc).moved

end Items

section Exprs

variable {tokens : List Token} {n : Nat} {sub : Below n}

/-- What is said of a reader of expressions. -/
def StaysExprs (tokens : List Token) {n : Nat} (sub : Below n) : Prop :=
  ∀ level c h, c.Within tokens → (sub level c h).Stays tokens

theorem exprList_stays (hsub : StaysExprs tokens sub) (level : Power) (c : Cursor) (h : c.size < n)
    (hc : c.Within tokens) : (exprList sub level c h).Stays tokens := by
  apply (hsub level c h hc).bind
  intro first c1 h1 hc1
  dsimp only
  split
  · refine ((followers_stays (hsub level) _ c1 _ hc1).since h1).bind ?_
    intro others d h2 hd
    exact blames_ok hd
  · exact blames_ok hc1

theorem exprUnless_stays (hsub : StaysExprs tokens sub) (ends : TokenKind → Bool) (c : Cursor) (h : c.size < n)
    (hc : c.Within tokens) : (exprUnless sub ends c h).Stays tokens := by
  unfold exprUnless
  split
  · exact blames_ok hc
  · refine (hsub .least c h hc).bind ?_
    intro e d h1 hd
    exact blames_ok hd

theorem exprAfter_stays (hsub : StaysExprs tokens sub) (mark : TokenKind) (level : Power) (c : Cursor) (h : c.size < n)
    (hc : c.Within tokens) : (exprAfter sub mark level c h).Stays tokens := by
  unfold exprAfter
  split
  · exact blames_ok hc
  · rename_i t c1 h1 hmark
    apply ((hsub level c1 _ (Cursor.accept?_within hmark hc)).since h1).bind
    intro e d h2 hd
    exact blames_ok hd

/-! ## Comprehensions -/

theorem conditions_stays (hsub : StaysExprs tokens sub) (c : Cursor) (h : c.size < n) (hc : c.Within tokens) :
    (conditions sub c h).Stays tokens := by
  rw [conditions]
  split
  · exact blames_ok hc
  · rename_i t c1 h1 hif
    apply ((hsub .conditional c1 _ (Cursor.accept?_within hif hc)).since h1).bind
    intro e c2 h2 hc2
    apply ((conditions_stays hsub c2 _ hc2).since h2).bind
    intro es d h3 hd
    exact blames_ok hd
termination_by c.size

theorem asyncMark_within {c : Cursor} (hc : c.Within tokens) : (asyncMark c).next.Within tokens := by
  unfold asyncMark
  split
  · rename_i t c1 h1 hasync
    exact Cursor.accept?_within hasync hc
  · exact hc

theorem clause_stays (hsub : StaysExprs tokens sub) (c : Cursor) (h : c.size < n) (hc : c.Within tokens) :
    (clause sub c h).Stays tokens := by
  apply (((asyncMark_within hc).expect _).from (asyncMark c).le).bind
  intro t c2 h2 hc2
  apply ((exprList_stays hsub .comparison c2 _ hc2).since h2).bind
  intro target c3 h3 hc3
  apply ((hc3.expect _).since h3).bind
  intro t' c4 h4 hc4
  apply ((hsub .conditional c4 _ hc4).since h4).bind
  intro iter c5 h5 hc5
  apply ((conditions_stays hsub c5 _ hc5).since h5).bind
  intro tests d h6 hd
  exact blames_ok hd

theorem clauses_stays (hsub : StaysExprs tokens sub) (c : Cursor) (h : c.size < n) (hc : c.Within tokens) :
    (clauses sub c h).Stays tokens := by
  rw [clauses]
  split
  · refine (clause_stays hsub c h hc).bind ?_
    intro x c1 h1 hc1
    apply ((clauses_stays hsub c1 _ hc1).since h1).bind
    intro xs d h2 hd
    exact blames_ok hd
  · exact blames_ok hc
termination_by c.size

/-! ## Displays -/

theorem filling_stays (hsub : StaysExprs tokens sub) (closing : TokenKind) (c : Cursor) (h : c.size < n)
    (hc : c.Within tokens) : (filling sub closing c h).Stays tokens := by
  unfold filling
  split
  · refine (clauses_stays hsub c h hc).bind ?_
    intro loops c1 h1 hc1
    apply ((hc1.expect closing).from h1).bind
    intro t d h2 hd
    exact blames_ok hd
  · split
    · refine (followers_stays (hsub .least) _ c h hc).bind ?_
      intro others c1 h1 hc1
      apply ((hc1.expect closing).from h1).bind
      intro t d h2 hd
      exact blames_ok hd
    · refine (hc.expect closing).bind ?_
      intro t d h1 hd
      exact blames_ok hd

theorem parenthesized_stays (hsub : StaysExprs tokens sub) (start : Position) (c : Cursor) (h : c.size < n)
    (hc : c.Within tokens) : (parenthesized sub start c h).Stays tokens := by
  unfold parenthesized
  split
  · rename_i t c1 h1 hclose
    exact blames_ok (Cursor.accept?_within hclose hc)
  · refine (hsub .least c h hc).bind ?_
    intro first c1 h1 hc1
    apply ((filling_stays hsub _ c1 _ hc1).since h1).bind
    intro rest d h2 hd
    dsimp only
    split <;> exact blames_ok hd

theorem listDisplay_stays (hsub : StaysExprs tokens sub) (start : Position) (c : Cursor) (h : c.size < n)
    (hc : c.Within tokens) : (listDisplay sub start c h).Stays tokens := by
  unfold listDisplay
  split
  · rename_i t c1 h1 hclose
    exact blames_ok (Cursor.accept?_within hclose hc)
  · refine (hsub .least c h hc).bind ?_
    intro first c1 h1 hc1
    apply ((filling_stays hsub _ c1 _ hc1).since h1).bind
    intro rest d h2 hd
    dsimp only
    split <;> exact blames_ok hd

theorem entry_stays (hsub : StaysExprs tokens sub) (c : Cursor) (h : c.size < n) (hc : c.Within tokens) :
    (entry sub c h).Stays tokens := by
  unfold entry
  split
  · rename_i t c1 h1 hstar
    apply ((hsub .comparison c1 _ (Cursor.accept?_within hstar hc)).since h1).bind
    intro value d h2 hd
    exact blames_ok hd
  · refine (hsub .least c h hc).bind ?_
    intro key c1 h1 hc1
    apply ((hc1.expect _).since h1).bind
    intro t c2 h2 hc2
    apply ((hsub .least c2 _ hc2).since h2).bind
    intro value d h3 hd
    exact blames_ok hd

theorem dictRest_stays (hsub : StaysExprs tokens sub) (start : Position) (first : Entry) (c : Cursor) (h : c.size < n)
    (hc : c.Within tokens) : (dictRest sub start first c h).Stays tokens := by
  apply (followers_stays (entry_stays hsub) _ c h hc).bind
  intro others c1 h1 hc1
  apply ((hc1.expect _).from h1).bind
  intro t d h2 hd
  exact blames_ok hd

theorem dictAfterKey_stays (hsub : StaysExprs tokens sub) (start : Position) (key : Expr) (c : Cursor) (h : c.size < n)
    (hc : c.Within tokens) : (dictAfterKey sub start key c h).Stays tokens := by
  apply (hsub .least c h hc).bind
  intro value c1 h1 hc1
  dsimp only
  split
  · refine ((clauses_stays hsub c1 _ hc1).since h1).bind ?_
    intro loops c2 h2 hc2
    apply ((hc2.expect _).since h2).bind
    intro t d h3 hd
    exact blames_ok hd
  · exact (dictRest_stays hsub start _ c1 _ hc1).since h1

theorem braceDisplay_stays (hsub : StaysExprs tokens sub) (start : Position) (c : Cursor) (h : c.size < n)
    (hc : c.Within tokens) : (braceDisplay sub start c h).Stays tokens := by
  unfold braceDisplay
  split
  · rename_i t c1 h1 hclose
    exact blames_ok (Cursor.accept?_within hclose hc)
  · split
    · rename_i t c1 h1 hstar
      apply ((hsub .comparison c1 _ (Cursor.accept?_within hstar hc)).since h1).bind
      intro value c2 h2 hc2
      exact (dictRest_stays hsub start _ c2 _ hc2).since h2
    · refine (hsub .least c h hc).bind ?_
      intro first c1 h1 hc1
      dsimp only
      split
      · rename_i t c2 h2 hcolon
        exact (dictAfterKey_stays hsub start first c2 _ (Cursor.accept?_since_within hcolon hc1)).since h2
      · refine ((filling_stays hsub _ c1 _ hc1).since h1).bind ?_
        intro rest d h2 hd
        dsimp only
        split <;> exact blames_ok hd

/-! ## Parameters -/

theorem hintAfter_stays (hsub : StaysExprs tokens sub) (annotated : Bool) (c : Cursor) (h : c.size < n)
    (hc : c.Within tokens) : (hintAfter sub annotated c h).Stays tokens := by
  unfold hintAfter
  split
  · exact exprAfter_stays hsub _ _ c h hc
  · exact blames_ok hc

theorem parameterItem_stays (hsub : StaysExprs tokens sub) (annotated : Bool) (c : Cursor) (h : c.size < n)
    (hc : c.Within tokens) : (parameterItem sub annotated c h).Stays tokens := by
  unfold parameterItem
  split
  · rename_i t c1 h1 hslash
    exact blames_ok (Cursor.accept?_within hslash hc)
  · split
    · rename_i t c1 h1 hstar
      have hc1 := Cursor.accept?_within hstar hc
      dsimp only
      split
      · exact blames_ok hc1
      · rename_i t' c2 h2 hname
        apply ((hintAfter_stays hsub annotated c2 _ (Cursor.accept?_since_within hname hc1)).since h2).bind
        intro hint d h3 hd
        exact blames_ok hd
    · split
      · rename_i t c1 h1 hstars
        apply ((Cursor.accept?_within hstars hc).expectName.since h1).bind
        intro name c2 h2 hc2
        apply ((hintAfter_stays hsub annotated c2 _ hc2).since h2).bind
        intro hint d h3 hd
        exact blames_ok hd
      · refine hc.expectName.bind ?_
        intro name c1 h1 hc1
        apply ((hintAfter_stays hsub annotated c1 _ hc1).since h1).bind
        intro hint c2 h2 hc2
        apply ((exprAfter_stays hsub _ _ c2 _ hc2).since h2).bind
        intro standard d h3 hd
        exact blames_ok hd

theorem parameters_stays (hsub : StaysExprs tokens sub) (closing : TokenKind) (annotated : Bool) (c : Cursor)
    (h : c.size < n) (hc : c.Within tokens) : (parameters sub closing annotated c h).Stays tokens := by
  apply (anyItems_stays (parameterItem_stays hsub annotated) closing c h hc).bind
  intro items d h1 hd
  exact blames_ok hd

/-! ## Arguments and indices -/

theorem plainArgument_stays (hsub : StaysExprs tokens sub) (c : Cursor) (h : c.size < n) (hc : c.Within tokens) :
    (plainArgument sub c h).Stays tokens := by
  apply (hsub .least c h hc).bind
  intro e c1 h1 hc1
  dsimp only
  split
  · refine ((clauses_stays hsub c1 _ hc1).since h1).bind ?_
    intro loops d h2 hd
    exact blames_ok hd
  · exact blames_ok hc1

theorem argumentName?_within {c : Cursor} {a : Advanced String c} (h : argumentName? c = some a)
    (hc : c.Within tokens) : a.next.Within tokens := (argumentName?_opens h).reaches.within hc

theorem argument_stays (hsub : StaysExprs tokens sub) (c : Cursor) (h : c.size < n) (hc : c.Within tokens) :
    (argument sub c h).Stays tokens := by
  unfold argument
  split
  · rename_i t c1 h1 hstar
    apply ((hsub .comparison c1 _ (Cursor.accept?_within hstar hc)).since h1).bind
    intro value d h2 hd
    exact blames_ok hd
  · split
    · rename_i t c1 h1 hstars
      apply ((hsub .named c1 _ (Cursor.accept?_within hstars hc)).since h1).bind
      intro value d h2 hd
      exact blames_ok hd
    · split
      · rename_i name c1 h1 hname
        apply ((hsub .named c1 _ (argumentName?_within hname hc)).since h1).bind
        intro value d h2 hd
        exact blames_ok hd
      · exact plainArgument_stays hsub c h hc

theorem arguments_stays (hsub : StaysExprs tokens sub) (c : Cursor) (h : c.size < n) (hc : c.Within tokens) :
    (arguments sub c h).Stays tokens := by
  apply (hc.expect _).bind
  intro t c1 h1 hc1
  apply ((anyItems_stays (argument_stays hsub) _ c1 _ hc1).since h1).bind
  intro items c2 h2 hc2
  apply ((hc2.expect _).since h2).bind
  intro t' d h3 hd
  exact blames_ok hd

theorem sliceRest_stays (hsub : StaysExprs tokens sub) (start : Position) (lower : Option Expr) (c : Cursor)
    (h : c.size < n) (hc : c.Within tokens) : (sliceRest sub start lower c h).Stays tokens := by
  apply (hc.expect _).bind
  intro t c1 h1 hc1
  apply ((exprUnless_stays hsub _ c1 _ hc1).since h1).bind
  intro upper c2 h2 hc2
  dsimp only
  split
  · exact blames_ok hc2
  · rename_i t' c3 h3 hcolon
    apply ((exprUnless_stays hsub _ c3 _ (Cursor.accept?_since_within hcolon hc2)).since h3).bind
    intro step d h4 hd
    exact blames_ok hd

theorem index_stays (hsub : StaysExprs tokens sub) (c : Cursor) (h : c.size < n) (hc : c.Within tokens) :
    (index sub c h).Stays tokens := by
  unfold index
  split
  · exact sliceRest_stays hsub _ none c h hc
  · refine (hsub .least c h hc).bind ?_
    intro lower c1 h1 hc1
    dsimp only
    split
    · exact (sliceRest_stays hsub _ _ c1 _ hc1).since h1
    · exact blames_ok hc1

theorem indices_stays (hsub : StaysExprs tokens sub) (c : Cursor) (h : c.size < n) (hc : c.Within tokens) :
    (indices sub c h).Stays tokens := by
  apply (index_stays hsub c h hc).bind
  intro first c1 h1 hc1
  dsimp only
  split
  · refine ((followers_stays (index_stays hsub) _ c1 _ hc1).since h1).bind ?_
    intro others d h2 hd
    exact blames_ok hd
  · exact blames_ok hc1

/-! ## Operands -/

theorem lambda_stays (hsub : StaysExprs tokens sub) (start : Position) (c : Cursor) (h : c.size < n)
    (hc : c.Within tokens) : (lambda sub start c h).Stays tokens := by
  apply (parameters_stays hsub _ false c h hc).bind
  intro list c1 h1 hc1
  apply ((hc1.expect _).from h1).bind
  intro t c2 h2 hc2
  apply ((hsub .named c2 _ hc2).since h2).bind
  intro body d h3 hd
  exact blames_ok hd

theorem yielded_stays (hsub : StaysExprs tokens sub) (start : Position) (c : Cursor) (h : c.size < n)
    (hc : c.Within tokens) : (yielded sub start c h).Stays tokens := by
  unfold yielded
  split
  · rename_i t c1 h1 hfrom
    apply ((hsub .least c1 _ (Cursor.accept?_within hfrom hc)).since h1).bind
    intro value d h2 hd
    exact blames_ok hd
  · split
    · refine (exprList_stays hsub .least c h hc).bind ?_
      intro value d h1 hd
      exact blames_ok hd
    · exact blames_ok hc

/-- An operand fails at its first token or after it. -/
theorem operandAfter_stays (hsub : StaysExprs tokens sub) (t : Token) (ht : t ∈ tokens) (c : Cursor) (h : c.size < n)
    (hc : c.Within tokens) : (operandAfter sub t c h).Stays tokens := by
  unfold operandAfter
  dsimp only
  split
  case h_7 | h_8 | h_9 => exact blames_ok ((moreStrings_reaches _ _ c).within hc)
  case h_10 => exact (parenthesized_stays hsub _ c h hc).moved
  case h_11 => exact (listDisplay_stays hsub _ c h hc).moved
  case h_12 => exact (braceDisplay_stays hsub _ c h hc).moved
  case h_13 | h_14 =>
    apply (hsub _ c h hc).bind
    intro value d h1 hd
    exact blames_ok hd
  case h_15 => exact (lambda_stays hsub _ c h hc).moved
  case h_16 => exact yielded_stays hsub _ c h hc
  case h_17 =>
    split
    · refine (hsub _ c h hc).bind ?_
      intro operand d h1 hd
      exact blames_ok hd
    · exact ⟨t, ht, rfl⟩
  all_goals exact blames_ok hc

theorem operand_stays (hsub : StaysExprs tokens sub) (c : Cursor) (h : c.size ≤ n) (hc : c.Within tokens) :
    (operand sub c h).Stays tokens := by
  unfold operand
  split
  · exact blames_unexpected hc
  · rename_i t c1 h1 hnext
    have ht : t ∈ tokens := hc.among.subset t (Cursor.next?_passes hnext).mem
    exact (operandAfter_stays hsub t ht c1 _ (Cursor.next?_within hnext hc)).since h1

/-! ## Operators -/

theorem binary_stays (hsub : StaysExprs tokens sub) (left : Expr) (op : BinaryOp) (c : Cursor) (h : c.size < n)
    (hc : c.Within tokens) : (binary sub left op c h).Stays tokens := by
  apply (hsub _ c h hc).bind
  intro right d h1 hd
  exact blames_ok hd

/-- An expression that cannot be named is blamed itself. -/
theorem named_stays (hsub : StaysExprs tokens sub) (left : Expr) (hleft : BeginsToken tokens left.span.start) (c : Cursor)
    (h : c.size < n) (hc : c.Within tokens) : (named sub left c h).Stays tokens := by
  unfold named
  split
  · refine (hsub .named c h hc).bind ?_
    intro value d h1 hd
    exact blames_ok hd
  · exact hleft

theorem conditional_stays (hsub : StaysExprs tokens sub) (body : Expr) (c : Cursor) (h : c.size < n)
    (hc : c.Within tokens) : (conditional sub body c h).Stays tokens := by
  apply (hsub .conditional c h hc).bind
  intro test c1 h1 hc1
  apply ((hc1.expect _).since h1).bind
  intro t c2 h2 hc2
  apply ((hsub .named c2 _ hc2).since h2).bind
  intro orelse d h3 hd
  exact blames_ok hd

theorem identity_stays (hsub : StaysExprs tokens sub) (left : Expr) (c : Cursor) (h : c.size < n)
    (hc : c.Within tokens) : (identity sub left c h).Stays tokens := by
  unfold identity
  split
  · rename_i t c1 h1 hnot
    exact (binary_stays hsub left _ c1 _ (Cursor.accept?_within hnot hc)).since h1
  · exact binary_stays hsub left _ c h hc

theorem absence_stays (hsub : StaysExprs tokens sub) (left : Expr) (c : Cursor) (h : c.size < n)
    (hc : c.Within tokens) : (absence sub left c h).Stays tokens := by
  apply (hc.demand _ _).bind
  intro t c1 h1 hc1
  exact (binary_stays hsub left _ c1 _ hc1).since h1

theorem extendAfter_stays (hsub : StaysExprs tokens sub) (left : Expr) (hleft : BeginsToken tokens left.span.start)
    (t : Token) (ht : t ∈ tokens) (c : Cursor) (h : c.size < n) (hc : c.Within tokens) :
    (extendAfter sub left t c h).Stays tokens := by
  unfold extendAfter
  split
  case h_1 => exact named_stays hsub left hleft c h hc
  case h_2 => exact conditional_stays hsub left c h hc
  case h_3 => exact identity_stays hsub left c h hc
  case h_4 => exact absence_stays hsub left c h hc
  case h_5 =>
    apply hc.expectName.bind
    intro attr d h1 hd
    exact blames_ok hd
  case h_6 =>
    apply (indices_stays hsub c h hc).bind
    intro key c1 h1 hc1
    apply ((hc1.expect _).since h1).bind
    intro t' d h2 hd
    exact blames_ok hd
  case h_7 =>
    apply (anyItems_stays (argument_stays hsub) _ c h hc).bind
    intro items c1 h1 hc1
    apply ((hc1.expect _).from h1).bind
    intro t' d h2 hd
    exact blames_ok hd
  case h_8 =>
    split
    · exact binary_stays hsub left _ c h hc
    · exact ⟨t, ht, rfl⟩

/-- What goes on after an expression begins where that one does. -/
theorem extend_stays (hreads : ReadsExprs sub) (hsub : StaysExprs tokens sub) (level : Power) (left : Expr)
    (hleft : BeginsToken tokens left.span.start) (c : Cursor) (h : c.size < n) (hc : c.Within tokens) :
    (extend sub level left c h).Stays tokens := by
  rw [extend]
  split
  · split
    · exact blames_ok hc
    · rename_i t c1 h1 hnext
      have ht : t ∈ tokens := hc.among.subset t (Cursor.next?_passes hnext).mem
      have hc1 := Cursor.next?_within hnext hc
      refine ((extendAfter_stays hsub left hleft t ht c1 _ hc1).since h1).bind_of
        (Read.gives_since (extendAfter_gives hreads left t c1 _) h1) ?_
      intro longer c2 h2 hlonger hc2
      have hbegins : BeginsToken tokens longer.span.start := hlonger.2 ▸ hleft
      apply ((extend_stays hreads hsub level longer hbegins c2 _ hc2).since h2).bind
      intro e d h3 hd
      exact blames_ok hd
  · exact blames_ok hc
termination_by c.size

end Exprs

/-! ## Expressions -/

theorem expr_stays {tokens : List Token} (level : Power) (c : Cursor) (hc : c.Within tokens) :
    (expr level c).Stays tokens := by
  have hreads : ReadsExprs (n := c.size) fun l c' _ => expr l c' := fun l c' _ => expr_gives l c'
  have hsub : StaysExprs tokens (n := c.size) fun l c' _ => expr l c' := fun l c' _ hc' => expr_stays l c' hc'
  rw [expr]
  refine (operand_stays hsub c _ hc).bind_of (operand_gives hreads c _) ?_
  intro left c1 h1 hleft hc1
  exact (extend_stays hreads hsub level left (hleft.ahead.begins hc) c1 _ hc1).since h1
termination_by c.size

theorem staysExprs_exprBelow (tokens : List Token) (n : Nat) : StaysExprs tokens (exprBelow n) :=
  fun level c _ hc => expr_stays level c hc

end TypeWatch.Reading
