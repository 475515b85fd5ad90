import Mathlib.Data.List.Forall2
import TypeWatch.Proofs.Reading.Cursor
import TypeWatch.Proofs.Token.Spelling
import TypeWatch.Reading.Expr

/-! # Readers that succeed on given words

A word is a token without its place. For each step of a reader there is a lemma that says on which words
it succeeds and which it leaves (`Finds`); the steps are put together with `finds_bind`. -/
namespace TypeWatch.Reading
set_option autoImplicit false

/-! ## What readings find -/

/-- A reading succeeds, and what it gives is as said. -/
def Finds {β : Type} (r : Except SyntaxError β) (P : β → Prop) : Prop := ∃ b, r = .ok b ∧ P b

variable {α β : Type} {c d : Cursor}

def Read.Finds (r : Read α c) (P : α → Cursor → Prop) : Prop := Reading.Finds r fun a => P a.value a.next

def MayRead.Finds (r : MayRead α c) (P : α → Cursor → Prop) : Prop :=
  Reading.Finds r fun a => P a.value a.next

theorem finds_ok {b : β} {P : β → Prop} (h : P b) : Finds (.ok b) P := ⟨b, rfl, h⟩

theorem Finds.imp {r : Except SyntaxError β} {P Q : β → Prop} (h : Finds r P) (hpq : ∀ b, P b → Q b) :
    Finds r Q := by
  obtain ⟨b, hb, hp⟩ := h
  exact ⟨b, hb, hpq b hp⟩

namespace Read

theorem Finds.and_gives {r : Read α c} {P Q : α → Cursor → Prop} (h : r.Finds P) (h' : r.Gives Q) :
    r.Finds fun x d => P x d ∧ Q x d := by
  obtain ⟨a, ha, hP⟩ := h
  exact ⟨a, ha, hP, h' a ha⟩

theorem finds_bind {r : Read α c} {f : Advanced α c → Except SyntaxError β} {Q : α → Cursor → Prop}
    {P : β → Prop} (hr : r.Finds Q) (hf : ∀ x d h, Q x d → Reading.Finds (f ⟨x, d, h⟩) P) :
    Reading.Finds (r >>= f) P := by
  obtain ⟨a, rfl, ha⟩ := hr
  exact hf a.value a.next a.lt ha

theorem finds_map {r : Read α c} {f : Advanced α c → β} {Q : α → Cursor → Prop} {P : β → Prop}
    (hr : r.Finds Q) (hf : ∀ a, Q a.value a.next → P (f a)) : Reading.Finds (r.map f) P := by
  obtain ⟨a, rfl, ha⟩ := hr
  exact finds_ok (hf a ha)

theorem finds_since {r : Read α d} {P : α → Cursor → Prop} (hr : r.Finds P) (h : d.size < c.size) :
    (r.since h).Finds P := finds_map hr fun _ ha => ha

theorem finds_from {r : Read α d} {P : α → Cursor → Prop} (hr : r.Finds P) (h : d.size ≤ c.size) :
    (r.from h).Finds P := finds_map hr fun _ ha => ha

theorem finds_moved {r : Read α c} {P : α → Cursor → Prop} (hr : r.Finds P) : r.moved.Finds P :=
  finds_map hr fun _ ha => ha

end Read

namespace MayRead

theorem finds_bind {r : MayRead α c} {f : Moved α c → Except SyntaxError β} {Q : α → Cursor → Prop}
    {P : β → Prop} (hr : r.Finds Q) (hf : ∀ x d h, Q x d → Reading.Finds (f ⟨x, d, h⟩) P) :
    Reading.Finds (r >>= f) P := by
  obtain ⟨a, rfl, ha⟩ := hr
  exact hf a.value a.next a.le ha

theorem finds_map {r : MayRead α c} {f : Moved α c → β} {Q : α → Cursor → Prop} {P : β → Prop}
    (hr : r.Finds Q) (hf : ∀ a, Q a.value a.next → P (f a)) : Reading.Finds (r.map f) P := by
  obtain ⟨a, rfl, ha⟩ := hr
  exact finds_ok (hf a ha)

theorem finds_since {r : MayRead α d} {P : α → Cursor → Prop} (hr : r.Finds P) (h : d.size < c.size) :
    (r.since h).Finds P := finds_map hr fun _ ha => ha

end MayRead

/-! ## Readings that fail -/

def Fails {β : Type} (r : Except SyntaxError β) : Prop := ∀ b, r ≠ .ok b

theorem fails_error (fault : SyntaxError) : Fails (.error fault : Except SyntaxError β) := by
  rintro b ⟨⟩

theorem fails_bind {γ : Type} {r : Except SyntaxError γ} (h : Fails r) (f : γ → Except SyntaxError β) :
    Fails (r >>= f) := by
  cases r with
  | error fault => exact fails_error fault
  | ok a => exact absurd rfl (h a)

theorem fails_map {γ : Type} {r : Except SyntaxError γ} (h : Fails r) (f : γ → β) : Fails (r.map f) := by
  cases r with
  | error fault => exact fails_error fault
  | ok a => exact absurd rfl (h a)

/-- A reading fails after a part of it that succeeds. -/
theorem Read.fails_bind {r : Read α c} {f : Advanced α c → Except SyntaxError β} {Q : α → Cursor → Prop}
    (hr : r.Finds Q) (hf : ∀ x d h, Q x d → Fails (f ⟨x, d, h⟩)) : Fails (r >>= f) := by
  obtain ⟨a, rfl, ha⟩ := hr
  exact hf a.value a.next a.lt ha

theorem MayRead.fails_bind {r : MayRead α c} {f : Moved α c → Except SyntaxError β} {Q : α → Cursor → Prop}
    (hr : r.Finds Q) (hf : ∀ x d h, Q x d → Fails (f ⟨x, d, h⟩)) : Fails (r >>= f) := by
  obtain ⟨a, rfl, ha⟩ := hr
  exact hf a.value a.next a.le ha

/-! ## Tokens ahead -/

namespace Cursor

/-- The words ahead. -/
def words (c : Cursor) : List Word := c.rest.map Token.word

theorem rest_of_words {w : Word} {ws : List Word} (h : c.words = w :: ws) :
    ∃ t ts, c.rest = t :: ts ∧ t.word = w ∧ ts.map Token.word = ws := by
  obtain ⟨t, ts, hrest, ht, hts⟩ := List.map_eq_cons_iff.mp h
  exact ⟨t, ts, hrest, ht, hts⟩

theorem kind_of_words {w : Word} {ws : List Word} (h : c.words = w :: ws) : c.kind = w.1 := by
  obtain ⟨t, ts, hrest, rfl, -⟩ := rest_of_words h
  rw [kind, token, hrest]
  rfl

theorem kindAt_of_words {v w : Word} {ws : List Word} (h : c.words = v :: w :: ws) :
    c.kindAt 1 = w.1 := by
  obtain ⟨t, ts, hrest, -, hts⟩ := rest_of_words h
  obtain ⟨u, us, rfl, rfl, -⟩ := List.map_eq_cons_iff.mp hts
  rw [kindAt, hrest]
  rfl

/-- A word ahead is the next one to be read. -/
theorem next?_of_words {w : Word} {ws : List Word} (h : c.words = w :: ws) :
    ∃ t d hlt, c.next? = some ⟨t, d, hlt⟩ ∧ t.word = w ∧ d.words = ws := by
  obtain ⟨t, ts, hrest, ht, hts⟩ := rest_of_words h
  obtain ⟨hlt, hnext⟩ := next?_eq_some hrest
  exact ⟨t, c.past t ts, hlt, hnext, ht, hts⟩

theorem accept?_of_words {kind : TokenKind} {text : String} {ws : List Word}
    (h : c.words = (kind, text) :: ws) :
    ∃ t d hlt, c.accept? kind = some ⟨t, d, hlt⟩ ∧ t.word = (kind, text) ∧ d.words = ws := by
  obtain ⟨t, d, hlt, hnext, ht, hd⟩ := next?_of_words h
  refine ⟨t, d, hlt, ?_, ht, hd⟩
  rw [accept?, hnext]
  exact if_pos (congrArg Prod.fst ht)

theorem accept?_eq_none {k : TokenKind} {w : Word} {ws : List Word} (h : c.words = w :: ws)
    (hne : w.1 ≠ k) : c.accept? k = none := by
  rw [← kind_of_words h] at hne
  exact accept?_of_kind_ne hne

theorem expect_fails {k : TokenKind} (h : c.kind ≠ k) : Fails (c.expect k) := by
  rw [expect, demand, accept?_of_kind_ne h]
  exact fails_error _

theorem words_of_accept? {kind : TokenKind} {a : Advanced Token c} (h : c.accept? kind = some a) :
    c.words = (kind, a.value.text) :: a.next.words := by
  obtain ⟨rfl, hpass⟩ := accept?_passes h
  rw [words, hpass.rest]
  rfl

theorem demand_finds {kind : TokenKind} {text : String} {ws : List Word} (fault : Fault)
    (h : c.words = (kind, text) :: ws) :
    (c.demand kind fault).Finds fun t d => t.text = text ∧ d.words = ws := by
  obtain ⟨t, d, hlt, haccept, ht, hd⟩ := accept?_of_words h
  rw [demand, haccept]
  exact finds_ok ⟨congrArg Prod.snd ht, hd⟩

theorem expect_finds {kind : TokenKind} {text : String} {ws : List Word}
    (h : c.words = (kind, text) :: ws) :
    (c.expect kind).Finds fun t d => t.text = text ∧ d.words = ws := demand_finds _ h

theorem expectName_finds {text : String} {ws : List Word} (h : c.words = (.name, text) :: ws) :
    c.expectName.Finds fun name d => name = text ∧ d.words = ws := by
  refine Read.finds_bind (expect_finds h) ?_
  intro t d _ ht
  exact finds_ok ht

end Cursor

/-! ## Items between commas -/

section Items

variable {n : Nat}

/-- Words that a list does not end before. -/
abbrev OpensItem (ends : TokenKind → Bool) (ws : List Word) : Prop := ∃ w rest, ws = w :: rest ∧ ends w.1 = false

/-- A reader of items that succeeds on some words, wherever a comma or the end of the list follows, and
gives what is the same as the item. -/
structure ItemOn (item : ItemBelow α n) (ends : TokenKind → Bool) (same : α → β → Prop) (ws : List Word)
    (y : β) : Prop where
  opens : OpensItem ends ws
  reads : ∀ (c : Cursor) (h : c.size < n) (next : Word) (more : List Word),
    c.words = ws ++ next :: more → next.1 = .op .comma ∨ ends next.1 = true →
    (item c h).Finds fun x d => same x y ∧ d.words = next :: more

variable {item : ItemBelow α n} {ends : TokenKind → Bool} {same : α → β → Prop}

/-- The word that follows an item: a comma, or what follows the last item. -/
def following (stop : Word) : List (List Word) → Word
  | [] => stop
  | _ :: _ => opWord .comma

theorem commaThen_append_eq_cons (wss : List (List Word)) (stop : Word) (more : List Word) :
    ∃ vs, commaThen wss ++ stop :: more = following stop wss :: vs := by
  cases wss with
  | nil => exact ⟨more, rfl⟩
  | cons _ _ => exact ⟨_, rfl⟩

theorem OpensItem.kind {ws rest : List Word} (h : OpensItem ends ws) {c : Cursor} (hc : c.words = ws ++ rest) :
    ends c.kind = false := by
  obtain ⟨w, ws', rfl, hends⟩ := h
  rw [Cursor.kind_of_words hc]
  exact hends

section Step

variable {ws rest : List Word} {Q : α → Cursor → Prop} {R : List α → Cursor → Prop} {c : Cursor} (h : c.size < n)
  (hopens : OpensItem ends ws)
  (hreads : ∀ (d : Cursor) (hd : d.size < n), d.words = ws ++ rest → (item d hd).Finds Q)
  (hmore : ∀ x (d : Cursor) (hd : d.size < n), Q x d → (followers item ends d hd).Finds fun xs => R (x :: xs))

include hopens hreads hmore

/-- One more item of a list, after a comma. -/
theorem followers_cons (hc : c.words = opWord .comma :: (ws ++ rest)) : (followers item ends c h).Finds R := by
  obtain ⟨t, c1, h1, haccept, -, hc1⟩ := Cursor.accept?_of_words hc
  rw [followers, haccept]
  simp only [hopens.kind hc1, Bool.false_eq_true, if_false]
  refine Read.finds_bind (Read.finds_since (hreads c1 (below_of_lt h1 h) hc1) h1) ?_
  intro x c2 h2 hx
  exact Read.finds_bind (MayRead.finds_since (hmore x c2 _ hx) h2) fun xs d _ hxs => finds_ok hxs

theorem anyItems_cons {closing : TokenKind} (hends : ends = (· = closing)) (hc : c.words = ws ++ rest) :
    (anyItems item closing c h).Finds R := by
  subst hends
  rw [anyItems, if_neg (of_decide_eq_false (hopens.kind hc))]
  refine Read.finds_moved (Read.finds_bind (hreads c h hc) ?_)
  intro x c1 h1 hx
  exact Read.finds_bind (MayRead.finds_since (hmore x c1 (below_of_lt h1 h) hx) h1) fun xs d _ hxs => finds_ok hxs

end Step

/-- Items that are read one after the other, each one before the word that follows it. -/
inductive Row (item : ItemBelow α n) (ends : TokenKind → Bool) (same : α → β → Prop) (stop : Word) :
    List (List Word) → List β → Prop
  | nil : Row item ends same stop [] []
  | cons {ws : List Word} {y : β} {wss : List (List Word)} {ys : List β} : OpensItem ends ws →
      (∀ (c : Cursor) (h : c.size < n) (more : List Word), c.words = ws ++ following stop wss :: more →
        (item c h).Finds fun x d => same x y ∧ d.words = following stop wss :: more) →
      Row item ends same stop wss ys → Row item ends same stop (ws :: wss) (y :: ys)

theorem row_of_items {stop : Word} (hends : stop.1 = .op .comma ∨ ends stop.1 = true) {wss : List (List Word)}
    {ys : List β} (hitems : List.Forall₂ (ItemOn item ends same) wss ys) : Row item ends same stop wss ys := by
  induction hitems with
  | nil => exact .nil
  | @cons ws y wss ys hitem _ ih =>
    refine .cons hitem.opens (fun c h more hc => hitem.reads c h _ more hc ?_) ih
    cases wss with
    | nil => exact hends
    | cons _ _ => exact Or.inl rfl

/-- What is left over by a list that ends before some words. -/
def ListEnds (item : ItemBelow α n) (ends : TokenKind → Bool) (ws rest : List Word) : Prop :=
  ∀ (c : Cursor) (h : c.size < n), c.words = ws → (followers item ends c h).Finds fun xs d => xs = [] ∧ d.words = rest

theorem listEnds_of_ne_comma (item : ItemBelow α n) (ends : TokenKind → Bool) {stop : Word} (hcomma : stop.1 ≠ .op .comma)
    (more : List Word) : ListEnds item ends (stop :: more) (stop :: more) := by
  intro c h hc
  rw [followers, Cursor.accept?_eq_none hc hcomma]
  exact finds_ok ⟨rfl, hc⟩

/-- After a comma that no item follows there is nothing more in the list. -/
theorem listEnds_comma (item : ItemBelow α n) {next : Word} (hends : ends next.1 = true) (more : List Word) :
    ListEnds item ends (opWord .comma :: next :: more) (next :: more) := by
  intro c h hc
  obtain ⟨t, c1, h1, haccept, -, hc1⟩ := Cursor.accept?_of_words hc
  rw [followers, haccept]
  simp only [Cursor.kind_of_words hc1, hends, if_true]
  exact finds_ok ⟨rfl, hc1⟩

theorem Row.followers_finds {stop : Word} {wss : List (List Word)} {ys : List β}
    (hrow : Row item ends same stop wss ys) (c : Cursor) (h : c.size < n) {more rest : List Word}
    (hend : ListEnds item ends (stop :: more) rest) (hc : c.words = commaThen wss ++ stop :: more) :
    (followers item ends c h).Finds fun xs d => List.Forall₂ same xs ys ∧ d.words = rest := by
  induction hrow generalizing c with
  | nil =>
    refine (hend c h hc).imp ?_
    rintro ⟨_, d, _⟩ ⟨rfl, hd⟩
    exact ⟨.nil, hd⟩
  | @cons ws y wss ys hopens hreads _ ih =>
    obtain ⟨vs, hvs⟩ := commaThen_append_eq_cons wss stop more
    rw [commaThen_cons, List.cons_append, List.append_assoc, hvs] at hc
    refine followers_cons h hopens (fun d hd => hreads d hd vs) ?_ hc
    rintro x d hd ⟨hx, hwords⟩
    refine (ih d hd (hwords.trans hvs.symm)).imp ?_
    rintro ⟨xs, e, _⟩ ⟨hxs, he⟩
    exact ⟨.cons hx hxs, he⟩

theorem Row.anyItems_ends {closing : TokenKind} {stop : Word} {ws : List Word} {wss : List (List Word)} {ys : List β}
    (hrow : Row item (· = closing) same stop (ws :: wss) ys) (c : Cursor) (h : c.size < n) {more rest : List Word}
    (hend : ListEnds item (· = closing) (stop :: more) rest) (hc : c.words = commaBetween (ws :: wss) ++ stop :: more) :
    (anyItems item closing c h).Finds fun xs d => List.Forall₂ same xs ys ∧ d.words = rest := by
  cases hrow with
  | cons hopens hreads hrow =>
    obtain ⟨vs, hvs⟩ := commaThen_append_eq_cons wss stop more
    rw [commaBetween, List.append_assoc, hvs] at hc
    refine anyItems_cons h hopens (fun d hd => hreads d hd vs) ?_ rfl hc
    rintro x d hd ⟨hx, hwords⟩
    refine (hrow.followers_finds d hd hend (hwords.trans hvs.symm)).imp ?_
    rintro ⟨xs, e, _⟩ ⟨hxs, he⟩
    exact ⟨.cons hx hxs, he⟩

theorem Row.anyItems_finds {closing : TokenKind} (hcomma : closing ≠ .op .comma) {text : String}
    {wss : List (List Word)} {ys : List β} (hrow : Row item (· = closing) same (closing, text) wss ys) (c : Cursor)
    (h : c.size < n) {more : List Word} (hc : c.words = commaBetween wss ++ (closing, text) :: more) :
    (anyItems item closing c h).Finds fun xs d =>
      List.Forall₂ same xs ys ∧ d.words = (closing, text) :: more := by
  cases wss with
  | nil =>
    cases hrow
    rw [anyItems, if_pos (Cursor.kind_of_words hc)]
    exact finds_ok ⟨.nil, hc⟩
  | cons ws wss => exact hrow.anyItems_ends c h (listEnds_of_ne_comma item _ hcomma more) hc

/-- Items that are read up to one of which something is left over, so that the list does not end as it should. -/
inductive Stuck (item : ItemBelow α n) (ends : TokenKind → Bool) (stop : Word) : List (List Word) → Prop
  | here {ws : List Word} {wss : List (List Word)} : OpensItem ends ws →
      (∀ (c : Cursor) (h : c.size < n) (more : List Word), c.words = ws ++ following stop wss :: more →
        (item c h).Finds fun _ d => d.kind ≠ .op .comma ∧ d.kind ≠ stop.1) → Stuck item ends stop (ws :: wss)
  | later {ws : List Word} {wss : List (List Word)} : OpensItem ends ws →
      (∀ (c : Cursor) (h : c.size < n) (more : List Word), c.words = ws ++ following stop wss :: more →
        (item c h).Finds fun _ d => d.words = following stop wss :: more) →
      Stuck item ends stop wss → Stuck item ends stop (ws :: wss)

theorem followers_stop {c : Cursor} (h : c.size < n) {stop : TokenKind} (hc : c.kind ≠ .op .comma ∧ c.kind ≠ stop) :
    (followers item ends c h).Finds fun _ d => d.kind ≠ stop := by
  rw [followers, accept?_of_kind_ne hc.1]
  exact finds_ok hc.2

theorem Stuck.followers_finds {stop : Word} {wss : List (List Word)} (hstuck : Stuck item ends stop wss) (c : Cursor)
    (h : c.size < n) {more : List Word} (hc : c.words = commaThen wss ++ stop :: more) :
    (followers item ends c h).Finds fun _ d => d.kind ≠ stop.1 := by
  induction hstuck generalizing c with
  | @here ws wss hopens hreads =>
    obtain ⟨vs, hvs⟩ := commaThen_append_eq_cons wss stop more
    rw [commaThen_cons, List.cons_append, List.append_assoc, hvs] at hc
    exact followers_cons h hopens (fun d hd => hreads d hd vs) (fun _ d hd => followers_stop hd) hc
  | @later ws wss hopens hreads _ ih =>
    obtain ⟨vs, hvs⟩ := commaThen_append_eq_cons wss stop more
    rw [commaThen_cons, List.cons_append, List.append_assoc, hvs] at hc
    exact followers_cons h hopens (fun d hd => hreads d hd vs) (fun _ d hd hwords => ih d hd (hwords.trans hvs.symm)) hc

theorem Stuck.anyItems_finds {closing : TokenKind} {text : String} {wss : List (List Word)}
    (hstuck : Stuck item (· = closing) (closing, text) wss) (c : Cursor) (h : c.size < n) {more : List Word}
    (hc : c.words = commaBetween wss ++ (closing, text) :: more) :
    (anyItems item closing c h).Finds fun _ d => d.kind ≠ closing := by
  cases hstuck with
  | @here ws wss hopens hreads =>
    obtain ⟨vs, hvs⟩ := commaThen_append_eq_cons wss (closing, text) more
    rw [commaBetween, List.append_assoc, hvs] at hc
    exact anyItems_cons h hopens (fun d hd => hreads d hd vs) (fun _ d hd => followers_stop hd) rfl hc
  | @later ws wss hopens hreads hstuck =>
    obtain ⟨vs, hvs⟩ := commaThen_append_eq_cons wss (closing, text) more
    rw [commaBetween, List.append_assoc, hvs] at hc
    exact anyItems_cons h hopens (fun d hd => hreads d hd vs)
      (fun _ d hd hwords => hstuck.followers_finds d hd (hwords.trans hvs.symm)) rfl hc

theorem followers_finds {wss : List (List Word)} {ys : List β}
    (hitems : List.Forall₂ (ItemOn item ends same) wss ys) (c : Cursor) (h : c.size < n) {next : Word}
    {more : List Word} (hc : c.words = commaThen wss ++ next :: more) (hcomma : next.1 ≠ .op .comma)
    (hends : ends next.1 = true) :
    (followers item ends c h).Finds fun xs d => List.Forall₂ same xs ys ∧ d.words = next :: more :=
  (row_of_items (Or.inr hends) hitems).followers_finds c h (listEnds_of_ne_comma item ends hcomma more) hc

theorem anyItems_finds {closing : TokenKind} (hcomma : closing ≠ .op .comma) {wss : List (List Word)}
    {ys : List β} (hitems : List.Forall₂ (ItemOn item (· = closing) same) wss ys) (c : Cursor)
    (h : c.size < n) {text : String} {more : List Word}
    (hc : c.words = commaBetween wss ++ (closing, text) :: more) :
    (anyItems item closing c h).Finds fun xs d =>
      List.Forall₂ same xs ys ∧ d.words = (closing, text) :: more :=
  (row_of_items (Or.inr (decide_eq_true rfl)) hitems).anyItems_finds hcomma c h hc

end Items

end TypeWatch.Reading
