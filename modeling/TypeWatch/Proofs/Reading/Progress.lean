import Mathlib.Data.List.TakeWhile
import TypeWatch.Proofs.Reading.Suite

/-! # Progress of readers

Whatever the tokens are, a reader stands before one of those that count, and where it succeeds it leaves off
before a later one (`Handled.reaches`). So the calls of readers of expressions and of statements are nested
no deeper than there are tokens ahead (`exprWithin_eq`, `stmtsWithin_eq`), and a loop has no more rounds than
it has tokens. -/
namespace TypeWatch.Reading
set_option autoImplicit false

/-! ## Streams -/

/-- The tokens that count: those before the first one that ends a stream, and that one, which is made up
where there is none. -/
def stream (tokens : List Token) : List Token :=
  (Cursor.ofTokens tokens).rest ++ [(Cursor.ofTokens tokens).last]

/-- A place before the token of that number, from zero, among those that count. -/
structure Cursor.StandsAt (tokens : List Token) (i : Nat) (c : Cursor) : Prop where
  rest_eq : c.rest = (Cursor.ofTokens tokens).rest.drop i
  last_eq : c.last = (Cursor.ofTokens tokens).last
  le : i ≤ (Cursor.ofTokens tokens).size

namespace Cursor

theorem kind_last_ofTokens (tokens : List Token) : (ofTokens tokens).last.kind = .endOfInput := by
  let counts (t : Token) : Bool := t.kind ≠ .endOfInput
  have hwhole : tokens.takeWhile counts ++ tokens.dropWhile counts = tokens := List.takeWhile_append_dropWhile
  have hdrop := congrArg (List.drop (tokens.takeWhile counts).length) hwhole
  rw [List.drop_left] at hdrop
  have hhead := List.head?_dropWhile_not counts tokens
  unfold ofTokens
  dsimp only
  rw [← hdrop]
  cases hrest : tokens.dropWhile counts with
  | nil => rfl
  | cons t rest =>
    rw [hrest] at hhead
    simpa [counts] using hhead

theorem kind_ne_of_mem_ofTokens {tokens : List Token} {t : Token} (h : t ∈ (ofTokens tokens).rest) :
    t.kind ≠ .endOfInput := by
  simpa using List.mem_takeWhile_imp h

/-- Tokens after the first one that ends a stream do not count. -/
theorem ofTokens_append_cons (xs ys : List Token) {stop : Token} (hstop : stop.kind = .endOfInput) :
    ofTokens (xs ++ stop :: ys) = ofTokens (xs ++ [stop]) := by
  have hbody (zs : List Token) : (xs ++ stop :: zs).takeWhile (fun t => decide (t.kind ≠ .endOfInput)) =
      xs.takeWhile fun t => decide (t.kind ≠ .endOfInput) := by
    rw [List.takeWhile_append]
    split
    · rename_i hall
      rw [List.takeWhile_cons_of_neg (by simp [hstop]), List.append_nil]
      exact ((List.takeWhile_prefix _).eq_of_length hall).symm
    · rfl
  unfold ofTokens
  dsimp only
  rw [hbody, hbody, List.drop_append_of_le_length (List.takeWhile_prefix _).length_le,
    List.drop_append_of_le_length (List.takeWhile_prefix _).length_le]
  cases xs.drop (xs.takeWhile fun t => decide (t.kind ≠ .endOfInput)).length <;> rfl

variable {tokens : List Token} {i : Nat} {c d : Cursor}

theorem standsAt_ofTokens (tokens : List Token) : (ofTokens tokens).StandsAt tokens 0 :=
  ⟨rfl, rfl, Nat.zero_le _⟩

theorem StandsAt.size_eq (h : c.StandsAt tokens i) : i + c.size = (ofTokens tokens).size := by
  have hle := h.le
  rw [size] at hle ⊢
  rw [h.rest_eq, List.length_drop]
  exact Nat.add_sub_cancel' hle

/-- A place is before the token that is read next there. -/
theorem StandsAt.token_eq (h : c.StandsAt tokens i) : (stream tokens)[i]? = some c.token := by
  have hle := h.le
  unfold stream token
  rw [h.rest_eq, h.last_eq]
  rcases Nat.lt_or_eq_of_le hle with hlt | heq
  · rw [List.getElem?_append_left hlt, List.drop_eq_getElem_cons hlt, List.getElem?_eq_getElem hlt]
    rfl
  · rw [heq, size, List.getElem?_concat_length, List.drop_length]
    rfl

/-- Only the last place is before the token that ends the stream. -/
theorem StandsAt.kind_eq_iff (h : c.StandsAt tokens i) :
    c.kind = .endOfInput ↔ i = (ofTokens tokens).size := by
  unfold kind token
  rw [h.rest_eq, h.last_eq]
  constructor
  · intro hkind
    refine Nat.le_antisymm h.le (Nat.le_of_not_lt fun hlt => ?_)
    rw [List.drop_eq_getElem_cons hlt] at hkind
    exact kind_ne_of_mem_ofTokens (List.getElem_mem hlt) hkind
  · intro heq
    rw [heq, size, List.drop_length]
    exact kind_last_ofTokens tokens

theorem StandsAt.reaching (h : c.StandsAt tokens i) (hd : Reaches c d) :
    d.StandsAt tokens ((ofTokens tokens).size - d.size) := by
  have hsuffix := h.rest_eq ▸ hd.suffix
  exact ⟨List.suffix_iff_eq_drop.mp (hsuffix.trans (List.drop_suffix _ _)), hd.last.trans h.last_eq,
    Nat.sub_le _ _⟩

theorem StandsAt.next?_eq_none_iff (h : c.StandsAt tokens i) :
    c.next? = none ↔ i = (ofTokens tokens).size := by
  have hsize := h.size_eq
  unfold next?
  split
  · rename_i hnil
    rw [size, hnil, List.length_nil] at hsize
    exact iff_of_true rfl hsize
  · rename_i t rest hrest
    rw [size, hrest, List.length_cons] at hsize
    refine iff_of_false nofun (Nat.ne_of_lt ?_)
    exact Nat.lt_of_lt_of_eq (Nat.lt_add_of_pos_right (Nat.succ_pos _)) hsize

theorem StandsAt.next (h : c.StandsAt tokens i) {a : Advanced Token c} (ha : c.next? = some a) :
    a.next.StandsAt tokens (i + 1) := by
  have hpass := next?_passes ha
  have hsize : i + (a.next.size + 1) = (ofTokens tokens).size := by
    have hsize := h.size_eq
    rwa [size, hpass.rest, List.length_cons] at hsize
  have hstands := h.reaching hpass.reaches
  rwa [show (ofTokens tokens).size - a.next.size = i + 1 by omega] at hstands

/-- A later place is before a later token. -/
theorem StandsAt.later (h : c.StandsAt tokens i) (hd : Reaches c d) (hlt : d.size < c.size) :
    ∃ j, i < j ∧ d.StandsAt tokens j := by
  have hsize := h.size_eq
  exact ⟨_, by omega, h.reaching hd⟩

end Cursor

/-! ## Readers that succeed -/

/-- The reader of lines at places with less than `n` tokens ahead. -/
def stmtsBelow (n : Nat) : StmtsBelow n := fun c _ => stmts c

/-- A reader has succeeded from one place to another. A reader that is chosen by the token at its place
has read that token as well. -/
inductive Handled (c : Cursor) : Cursor → Prop
  | token {a : Advanced Token c} : c.next? = some a → Handled c a.next
  | expr {level : Power} {a : Advanced Expr c} : expr level c = .ok a → Handled c a.next
  | several {level : Power} {a : Advanced Expr c} : several level c = .ok a → Handled c a.next
  | operand {n : Nat} {t : Token} {c1 : Cursor} {h1 : c1.size < c.size} {h : c1.size < n}
      {a : Moved Expr c1} :
      c.next? = some ⟨t, c1, h1⟩ → operandAfter (exprBelow n) t c1 h = .ok a → Handled c a.next
  | operator {n : Nat} {left : Expr} {t : Token} {c1 : Cursor} {h1 : c1.size < c.size} {h : c1.size < n}
      {a : Advanced Expr c1} :
      c.next? = some ⟨t, c1, h1⟩ → extendAfter (exprBelow n) left t c1 h = .ok a → Handled c a.next
  | word {t : Token} {c1 : Cursor} {h1 : c1.size < c.size} {read : MayRead Stmt c1} {a : Moved Stmt c1} :
      c.next? = some ⟨t, c1, h1⟩ → wordStmt? t c1 = some read → read = .ok a → Handled c a.next
  | exprStmt {a : Advanced Stmt c} : exprStmt c = .ok a → Handled c a.next
  | line {a : Advanced (List Stmt) c} : simpleLine c = .ok a → Handled c a.next
  | compound {n : Nat} {t : Token} {c1 : Cursor} {h1 : c1.size < c.size} {h : c1.size < n}
      {read : Read Stmt c1} {a : Advanced Stmt c1} :
      c.next? = some ⟨t, c1, h1⟩ → compound? (stmtsBelow n) t c1 h = some read → read = .ok a →
      Handled c a.next
  | decorated {n : Nat} {h : c.size ≤ n} {a : Advanced Stmt c} :
      decoratedStmt (stmtsBelow n) c h = .ok a → Handled c a.next
  | suite {n : Nat} {h : c.size < n} {a : Advanced (List Stmt) c} :
      suite (stmtsBelow n) c h = .ok a → Handled c a.next
  | stmts {a : Advanced (List Stmt) c} : stmts c = .ok a → Handled c a.next

theorem readsLines_stmtsBelow (n : Nat) : ReadsLines (stmtsBelow n) := fun c _ => stmts_gives c

/-- A reader that succeeds has read a token, and leaves off at a place of the same stream. -/
theorem Handled.reaches {c d : Cursor} (h : Handled c d) : Reaches c d ∧ d.size < c.size := by
  cases h with
  | token h => exact ⟨(Cursor.next?_passes h).reaches, Advanced.lt _⟩
  | expr h => exact ⟨(expr_gives _ c _ h).reaches, Advanced.lt _⟩
  | several h => exact ⟨several_reaches _ c _ h, Advanced.lt _⟩
  | @operand _ _ _ h1 _ a hnext h =>
    have hpass := (Cursor.next?_passes hnext).reaches
    have hreads := operandAfter_gives (readsExprs_exprBelow _) _ _ _ a h
    exact ⟨hpass.trans hreads.2.1, Nat.lt_of_le_of_lt a.le h1⟩
  | @operator _ _ _ _ h1 _ a hnext h =>
    have hpass := (Cursor.next?_passes hnext).reaches
    have hreads := extendAfter_gives (readsExprs_exprBelow _) _ _ _ _ a h
    exact ⟨hpass.trans hreads.1, Nat.lt_trans a.lt h1⟩
  | @word _ _ h1 _ a hnext hword h =>
    have hpass := (Cursor.next?_passes hnext).reaches
    exact ⟨hpass.trans ((wordStmt?_gives hword).2 a h).reaches, Nat.lt_of_le_of_lt a.le h1⟩
  | exprStmt h => exact ⟨(exprStmt_gives c _ h).1.reaches, Advanced.lt _⟩
  | line h => exact ⟨(simpleLine_gives c _ h).1.all.reaches, Advanced.lt _⟩
  | @compound _ _ _ h1 _ _ a hnext hread h =>
    have hpass := (Cursor.next?_passes hnext).reaches
    have hgives := (compound?_gives (readsLines_stmtsBelow _) _ _ _ hread).2 a h
    exact ⟨hpass.trans hgives.inner.reaches, Nat.lt_trans a.lt h1⟩
  | decorated h => exact ⟨(decoratedStmt_gives (readsLines_stmtsBelow _) c _ _ h).1.reaches, Advanced.lt _⟩
  | suite h => exact ⟨(suite_gives (readsLines_stmtsBelow _) c _ _ h).1.1.reaches, Advanced.lt _⟩
  | stmts h => exact ⟨(stmts_gives c _ h).1.reaches, Advanced.lt _⟩

/-! ## Recursion -/

/-- An expression, with calls of the reader nested no deeper than `depth`. What lies deeper is read by
`deep`. -/
def exprWithin (deep : (level : Power) → (c : Cursor) → Read Expr c) :
    (depth : Nat) → (level : Power) → (c : Cursor) → Read Expr c
  | 0, level, c => deep level c
  | depth + 1, level, c => do
    let ⟨left, c1, h1⟩ ←
      operand (n := c.size) (fun l c' _ => exprWithin deep depth l c') c c.size_upTo
    (extend (n := c.size) (fun l c' _ => exprWithin deep depth l c') level left c1 h1).since h1

/-- The statements of a line or the one with suites, with calls of the reader nested no deeper than
`depth`. What lies deeper is read by `deep`. -/
def stmtsWithin (deep : (c : Cursor) → Read (List Stmt) c) :
    (depth : Nat) → (c : Cursor) → Read (List Stmt) c
  | 0, c => deep c
  | depth + 1, c => stmtsWith (n := c.size) (fun c' _ => stmtsWithin deep depth c') c c.size_upTo

/-- Calls of the reader of expressions are nested no deeper than there are tokens ahead. -/
theorem exprWithin_eq (deep : (level : Power) → (c : Cursor) → Read Expr c) (depth : Nat) :
    ∀ (level : Power) (c : Cursor), c.size < depth → exprWithin deep depth level c = expr level c := by
  induction depth with
  | zero =>
    intro level c h
    exact absurd h (Nat.not_lt_zero _)
  | succ depth ih =>
    intro level c h
    have hsub : (fun (l : Power) (c' : Cursor) (_ : c'.size < c.size) => exprWithin deep depth l c') =
        fun l c' _ => expr l c' := by
      funext l c' h'
      exact ih l c' (Nat.lt_of_lt_of_le h' (Nat.le_of_lt_succ h))
    rw [exprWithin, hsub, expr]

/-- Calls of the reader of statements are nested no deeper than there are tokens ahead. -/
theorem stmtsWithin_eq (deep : (c : Cursor) → Read (List Stmt) c) (depth : Nat) :
    ∀ c : Cursor, c.size < depth → stmtsWithin deep depth c = stmts c := by
  induction depth with
  | zero =>
    intro c h
    exact absurd h (Nat.not_lt_zero _)
  | succ depth ih =>
    intro c h
    have hsub : (fun (c' : Cursor) (_ : c'.size < c.size) => stmtsWithin deep depth c') =
        fun c' _ => stmts c' := by
      funext c' h'
      exact ih c' (Nat.lt_of_lt_of_le h' (Nat.le_of_lt_succ h))
    rw [stmtsWithin, hsub, stmts]

/-! ## Loops -/

/-- Some things are read between two places, with a token at least for each. -/
def Pays {α : Type} (c : Cursor) (xs : List α) (d : Cursor) : Prop := xs.length + d.size ≤ c.size

section Pays

variable {α : Type} {c c1 d : Cursor} {xs ys : List α}

theorem pays_nil (h : d.size ≤ c.size) : Pays c ([] : List α) d := by
  rw [Pays, List.length_nil, Nat.zero_add]
  exact h

theorem Pays.cons (h : c1.size < c.size) (x : α) (h' : Pays c1 xs d) : Pays c (x :: xs) d := by
  rw [Pays, List.length_cons, Nat.add_right_comm]
  exact Nat.lt_of_le_of_lt h' h

theorem Pays.reaching (h : Pays c xs c1) (h' : d.size ≤ c1.size) : Pays c xs d :=
  Nat.le_trans (Nat.add_le_add_left h' _) h

theorem Pays.append (h : Pays c xs c1) (h' : Pays c1 ys d) : Pays c (xs ++ ys) d := by
  rw [Pays, List.length_append, Nat.add_assoc]
  exact Nat.le_trans (Nat.add_le_add_left h' _) h

end Pays

section Items

variable {α : Type} {n : Nat}

theorem read_gives {c : Cursor} (r : Read α c) : r.Gives fun _ d => d.size < c.size := fun a _ => a.lt

theorem followers_pays (item : ItemBelow α n) (ends : TokenKind → Bool) (c : Cursor) (h : c.size < n) :
    (followers item ends c h).Gives (Pays c) := by
  rw [followers]
  split
  · exact gives_ok (pays_nil (Nat.le_refl _))
  · rename_i t c1 h1 _
    split
    · exact gives_ok (pays_nil (Nat.le_of_lt h1))
    · refine Read.gives_bind (Read.gives_since (read_gives (item c1 _)) h1) ?_
      intro x c2 h2 _
      refine Read.gives_bind (MayRead.gives_since (followers_pays item ends c2 _) h2) ?_
      intro xs d h3 hxs
      exact gives_ok (.cons h2 x hxs)
termination_by c.size

theorem someItems_pays (item : ItemBelow α n) (ends : TokenKind → Bool) (c : Cursor) (h : c.size < n) :
    (someItems item ends c h).Gives (Pays c) := by
  refine Read.gives_bind (read_gives (item c h)) ?_
  intro x c1 h1 _
  refine Read.gives_bind (MayRead.gives_since (followers_pays item ends c1 _) h1) ?_
  intro xs d h2 hxs
  exact gives_ok (.cons h1 x hxs)

end Items

section Exprs

variable {n : Nat} (sub : Below n)

theorem conditions_pays (c : Cursor) (h : c.size < n) : (conditions sub c h).Gives (Pays c) := by
  rw [conditions]
  split
  · exact gives_ok (pays_nil (Nat.le_refl _))
  · rename_i t c1 h1 _
    refine Read.gives_bind (Read.gives_since (read_gives (sub .conditional c1 _)) h1) ?_
    intro e c2 h2 _
    refine Read.gives_bind (MayRead.gives_since (conditions_pays c2 _) h2) ?_
    intro es d h3 hes
    exact gives_ok (.cons h2 e hes)
termination_by c.size

theorem clauses_pays (c : Cursor) (h : c.size < n) : (clauses sub c h).Gives (Pays c) := by
  rw [clauses]
  split
  · refine Read.gives_bind (read_gives (clause sub c h)) ?_
    intro x c1 h1 _
    refine Read.gives_bind (MayRead.gives_since (clauses_pays c1 _) h1) ?_
    intro xs d h2 hxs
    exact gives_ok (.cons h1 x hxs)
  · exact gives_ok (pays_nil (Nat.le_refl _))
termination_by c.size

/-- An expression grows by operators, one after the other, as many as are in a list. -/
inductive Grown : Expr → Cursor → List Token → Expr → Cursor → Prop
  | done {e : Expr} {c : Cursor} : Grown e c [] e c
  | more {left longer e : Expr} {t : Token} {ts : List Token} {c c1 c2 d : Cursor} {h1 : c1.size < c.size}
      {h2 : c2.size < c1.size} {h : c1.size < n} : c.next? = some ⟨t, c1, h1⟩ →
      extendAfter sub left t c1 h = .ok ⟨longer, c2, h2⟩ → Grown longer c2 ts e d →
      Grown left c (t :: ts) e d

/-- Each round of the loop over operators reads an operator and what belongs to it. -/
theorem extend_grown (level : Power) (left : Expr) (c : Cursor) (h : c.size < n) :
    (extend sub level left c h).Gives fun e d => ∃ ts, Grown sub left c ts e d ∧ Pays c ts d := by
  have hdone : ∃ ts, Grown sub left c ts left c ∧ Pays c ts c := ⟨[], .done, pays_nil (Nat.le_refl _)⟩
  rw [extend]
  split
  · split
    · exact gives_ok hdone
    · rename_i t c1 h1 hnext
      have hafter : (extendAfter sub left t c1 (below_of_lt h1 h)).Gives fun e d =>
          ∃ hlt, extendAfter sub left t c1 (below_of_lt h1 h) = .ok ⟨e, d, hlt⟩ := fun a ha => ⟨a.lt, ha⟩
      refine Read.gives_bind (Read.gives_since hafter h1) ?_
      intro longer c2 h2 hlonger
      obtain ⟨_, hlonger⟩ := hlonger
      refine Read.gives_bind (MayRead.gives_since (extend_grown level longer c2 _) h2) ?_
      intro e d h3 hrest
      obtain ⟨ts, hgrown, hpays⟩ := hrest
      exact gives_ok ⟨t :: ts, .more hnext hlonger hgrown, .cons h2 t hpays⟩
  · exact gives_ok hdone
termination_by c.size

end Exprs

theorem assigned_pays (c : Cursor) : (assigned c).Gives (Pays c) := by
  rw [assigned]
  split
  · exact gives_ok (pays_nil (Nat.le_refl _))
  · rename_i t c1 h1 _
    refine Read.gives_bind (Read.gives_since (read_gives (several .least c1)) h1) ?_
    intro e c2 h2 _
    refine Read.gives_bind (MayRead.gives_since (assigned_pays c2) h2) ?_
    intro es d h3 hes
    exact gives_ok (.cons h2 e hes)
termination_by c.size

theorem moreSimple_pays (c : Cursor) : (moreSimple c).Gives (Pays c) := by
  rw [moreSimple]
  split
  · exact gives_ok (pays_nil (Nat.le_refl _))
  · rename_i t c1 h1 _
    split
    · exact gives_ok (pays_nil (Nat.le_of_lt h1))
    · refine Read.gives_bind (Read.gives_since (read_gives (simpleStmt c1)) h1) ?_
      intro s c2 h2 _
      refine Read.gives_bind (MayRead.gives_since (moreSimple_pays c2) h2) ?_
      intro ss d h3 hss
      exact gives_ok (.cons h2 s hss)
termination_by c.size

theorem decoratorLines_pays (c : Cursor) : (decoratorLines c).Gives (Pays c) := by
  rw [decoratorLines]
  split
  · exact gives_ok (pays_nil (Nat.le_refl _))
  · rename_i t c1 h1 _
    refine Read.gives_bind (Read.gives_since (read_gives (single .named c1)) h1) ?_
    intro e c2 h2 _
    refine Read.gives_bind (Read.gives_since (read_gives (c2.expect .newline)) h2) ?_
    intro t' c3 h3 _
    refine Read.gives_bind (MayRead.gives_since (decoratorLines_pays c3) h3) ?_
    intro es d h4 hes
    exact gives_ok (.cons h3 e hes)
termination_by c.size

theorem simpleLine_pays (c : Cursor) : (simpleLine c).Gives (Pays c) := by
  refine Read.gives_bind (read_gives (simpleStmt c)) ?_
  intro s c1 h1 _
  refine Read.gives_bind (MayRead.gives_since (moreSimple_pays c1) h1) ?_
  intro ss c2 h2 hss
  refine Read.gives_bind (Read.gives_since (read_gives (c2.expect .newline)) h2) ?_
  intro t d h3 hnewline
  exact gives_ok (.cons h1 s (hss.reaching (Nat.le_of_lt hnewline)))

section Stmts

variable {n : Nat} (sub : StmtsBelow n)

theorem suiteStmts_pays {sub : StmtsBelow n} (hsub : ∀ c h, (sub c h).Gives (Pays c)) (c : Cursor) (h : c.size < n) :
    (suiteStmts sub c h).Gives (Pays c) := by
  rw [suiteStmts]
  split
  · exact gives_ok (pays_nil (Nat.le_refl _))
  · exact gives_ok (pays_nil (Nat.le_refl _))
  · exact gives_fail c _
  · refine Read.gives_bind (hsub c h) ?_
    intro ss c1 h1 hss
    refine Read.gives_bind (MayRead.gives_since (suiteStmts_pays hsub c1 _) h1) ?_
    intro rest d h2 hrest
    exact gives_ok (hss.append hrest)
termination_by c.size

theorem handlers_pays (c : Cursor) (h : c.size < n) : (handlers sub c h).Gives (Pays c) := by
  rw [handlers]
  split
  · exact gives_ok (pays_nil (Nat.le_refl _))
  · rename_i t c1 h1 _
    generalize groupMark c1 = mark
    obtain ⟨_, c2, h2⟩ := mark
    refine Read.gives_bind (read_gives _) ?_
    intro type c3 h3 _
    refine Read.gives_bind (Read.gives_since (read_gives (suite sub c3 _)) h3) ?_
    intro body c4 h4 _
    refine Read.gives_bind (MayRead.gives_since (handlers_pays c4 _) h4) ?_
    intro hs d h5 hhs
    exact gives_ok (.cons h4 _ hhs)
termination_by c.size

theorem pays_single {c d : Cursor} (s : Stmt) (h : d.size < c.size) : Pays c [s] d :=
  .cons h s (pays_nil (Nat.le_refl _))

theorem stmtsWith_pays (c : Cursor) (h : c.size ≤ n) :
    (stmtsWith sub c h).Gives (Pays c) := by
  unfold stmtsWith
  split
  · exact simpleLine_pays c
  · rename_i t c1 h1 _
    dsimp only
    split
    · refine Read.gives_bind (read_gives (decoratedStmt sub c h)) ?_
      exact fun s d hlt _ => gives_ok (pays_single s hlt)
    · split
      · rename_i read _
        refine Read.gives_bind (read_gives (read.since h1)) ?_
        exact fun s d hlt _ => gives_ok (pays_single s hlt)
      · exact simpleLine_pays c

end Stmts

theorem stmts_pays (c : Cursor) : (stmts c).Gives (Pays c) := by
  rw [stmts]
  exact stmtsWith_pays _ c c.size_upTo

/-- Where the statements of a module are read, the place is the end of the stream. -/
theorem moduleStmts_pays (c : Cursor) (hlast : c.last.kind = .endOfInput) :
    (moduleStmts c).Gives fun ss d => Pays c ss d ∧ d.kind = .endOfInput := by
  rw [moduleStmts]
  split
  · rename_i hend
    exact gives_ok ⟨pays_nil (Nat.le_refl _), hend⟩
  · exact gives_fail c _
  · rename_i hnewline
    split
    · rename_i hnext
      have hnil : c.rest = [] := by
        unfold Cursor.next? at hnext
        split at hnext
        · assumption
        · cases hnext
      rw [Cursor.kind, Cursor.token, hnil] at hnewline
      cases hlast.symm.trans hnewline
    · rename_i t c1 h1 hnext
      have hlast1 : c1.last.kind = .endOfInput := by rw [(Cursor.next?_passes hnext).last, hlast]
      refine MayRead.gives_imp (Read.gives_moved (MayRead.gives_since (moduleStmts_pays c1 hlast1) h1)) ?_
      intro a ha
      exact ⟨Nat.le_trans ha.1 (Nat.le_of_lt h1), ha.2⟩
  · have hboth : (stmts c).Gives fun ss d => Pays c ss d ∧ d.last = c.last :=
      fun a ha => ⟨stmts_pays c a ha, (stmts_gives c a ha).1.reaches.last⟩
    refine Read.gives_bind hboth ?_
    intro ss c1 h1 hss
    have hlast1 : c1.last.kind = .endOfInput := by rw [hss.2, hlast]
    refine Read.gives_bind (MayRead.gives_since (moduleStmts_pays c1 hlast1) h1) ?_
    intro rest d h2 hrest
    exact gives_ok ⟨hss.1.append hrest.1, hrest.2⟩
termination_by c.size

/-- The search for the end of a parenthesis looks no further than the end of the line. -/
theorem closesBeforeColon_append_cons (xs ys : List Token) {t : Token} (ht : t.kind = .newline) (depth : Nat) :
    closesBeforeColon depth (xs ++ t :: ys) = closesBeforeColon depth (xs ++ [t]) := by
  induction xs generalizing depth with
  | nil => simp only [List.nil_append, closesBeforeColon, ht]
  | cons x xs ih =>
    have hhead : (xs ++ t :: ys).head? = (xs ++ [t]).head? := by cases xs <;> rfl
    simp only [List.cons_append, closesBeforeColon, ih, hhead]

/-- Each list that is read at a place has a token at least for each of its items: items between commas,
conditions and loops of a comprehension, operators, values and statements of a line, decorators, handlers,
and the statements of a suite. -/
structure LoopsPay (c : Cursor) : Prop where
  items {α : Type} {n : Nat} (item : ItemBelow α n) (ends : TokenKind → Bool) (h : c.size < n) :
    (someItems item ends c h).Gives (Pays c)
  conditions {n : Nat} (sub : Below n) (h : c.size < n) : (conditions sub c h).Gives (Pays c)
  clauses {n : Nat} (sub : Below n) (h : c.size < n) : (clauses sub c h).Gives (Pays c)
  operators {n : Nat} (sub : Below n) (level : Power) (left : Expr) (h : c.size < n) :
    (extend sub level left c h).Gives fun e d => ∃ ts, Grown sub left c ts e d ∧ Pays c ts d
  values : (assigned c).Gives (Pays c)
  line : (simpleLine c).Gives (Pays c)
  decorators : (decoratorLines c).Gives (Pays c)
  handlers {n : Nat} (sub : StmtsBelow n) (h : c.size < n) : (handlers sub c h).Gives (Pays c)
  suite {n : Nat} (h : c.size < n) : (suiteStmts (stmtsBelow n) c h).Gives (Pays c)

theorem loopsPay (c : Cursor) : LoopsPay c where
  items item ends h := someItems_pays item ends c h
  conditions sub h := conditions_pays sub c h
  clauses sub h := clauses_pays sub c h
  operators sub level left h := extend_grown sub level left c h
  values := assigned_pays c
  line := simpleLine_pays c
  decorators := decoratorLines_pays c
  handlers sub h := handlers_pays sub c h
  suite h := suiteStmts_pays (fun c' _ => stmts_pays c') c h

/-! ## Every list of tokens -/

theorem ofTokens_eq_map (tokens : List Token) : Module.ofTokens tokens =
    (moduleStmts (Cursor.ofTokens tokens)).map fun a => ⟨⟨.first, a.next.lastEnd⟩, a.value⟩ := by
  unfold Module.ofTokens
  cases moduleStmts (Cursor.ofTokens tokens) <;> rfl

/-- Whatever the tokens are, they are read as a module or there is an error, and those after the first one
that ends the stream do not matter. A place is always before one of the tokens that count; reading goes to
the next one until the end, where it stops. A reader that succeeds has read a token at least. So calls are
nested no deeper than there are tokens ahead, and every loop has a token for each of its rounds. -/
theorem reading_progresses (tokens : List Token) :
    ((∃ m, Module.ofTokens tokens = .ok m) ∨ ∃ e, Module.ofTokens tokens = .error e) ∧
    (∀ before stop after, tokens = before ++ stop :: after → stop.kind = .endOfInput →
      Module.ofTokens tokens = Module.ofTokens (before ++ [stop])) ∧
    (∃ body stop, stream tokens = body ++ [stop] ∧ body <+: tokens ∧
      (∀ t ∈ body, t.kind ≠ .endOfInput) ∧ stop.kind = .endOfInput) ∧
    (Cursor.ofTokens tokens).StandsAt tokens 0 ∧
    (∀ a, moduleStmts (Cursor.ofTokens tokens) = .ok a →
      a.next.StandsAt tokens (Cursor.ofTokens tokens).size ∧ Pays (Cursor.ofTokens tokens) a.value a.next) ∧
    (∀ c i, c.StandsAt tokens i →
      (stream tokens)[i]? = some c.token ∧
      (c.next? = none ↔ i = (Cursor.ofTokens tokens).size) ∧
      (∀ a, c.next? = some a → a.next.StandsAt tokens (i + 1)) ∧
      (∀ d, Handled c d → ∃ j, i < j ∧ d.StandsAt tokens j) ∧
      (∀ deep depth level, c.size < depth → exprWithin deep depth level c = expr level c) ∧
      (∀ deep depth, c.size < depth → stmtsWithin deep depth c = stmts c) ∧
      LoopsPay c) ∧
    ∀ before newline after depth, newline.kind = .newline →
      closesBeforeColon depth (before ++ newline :: after) = closesBeforeColon depth (before ++ [newline]) := by
  refine ⟨?_, ?_, ?_, Cursor.standsAt_ofTokens tokens, ?_, ?_, ?_⟩
  · cases Module.ofTokens tokens with
    | ok m => exact Or.inl ⟨m, rfl⟩
    | error e => exact Or.inr ⟨e, rfl⟩
  · intro before stop after htokens hstop
    rw [htokens, ofTokens_eq_map, ofTokens_eq_map, Cursor.ofTokens_append_cons before after hstop]
  · exact ⟨_, _, rfl, Cursor.ofTokens_prefix tokens, fun t => Cursor.kind_ne_of_mem_ofTokens,
      Cursor.kind_last_ofTokens tokens⟩
  · intro a ha
    obtain ⟨hpays, hend⟩ := moduleStmts_pays _ (Cursor.kind_last_ofTokens tokens) a ha
    have hstands := (Cursor.standsAt_ofTokens tokens).reaching (moduleStmts_gives _ a ha).reaches
    rw [hstands.kind_eq_iff.mp hend] at hstands
    exact ⟨hstands, hpays⟩
  · intro c i hc
    refine ⟨hc.token_eq, hc.next?_eq_none_iff, fun a => hc.next, ?_, ?_, ?_, loopsPay c⟩
    · intro d hd
      exact hc.later hd.reaches.1 hd.reaches.2
    · intro deep depth level hlt
      exact exprWithin_eq deep depth level c hlt
    · intro deep depth hlt
      exact stmtsWithin_eq deep depth c hlt
  · intro before newline after depth hnewline
    exact closesBeforeColon_append_cons before after hnewline depth

/-- A stream with its end before other tokens. -/
def endedEarly : List Token :=
  [⟨.name, "x", ⟨⟨0, 1⟩, ⟨1, 1⟩⟩⟩, .layout .newline ⟨1, 1⟩, .layout .endOfInput ⟨2, 2⟩,
    ⟨.op .closeParen, ")", ⟨⟨2, 2⟩, ⟨3, 2⟩⟩⟩]

theorem endedEarly_progresses :
    Module.ofTokens endedEarly = Module.ofTokens (endedEarly.take 3) ∧
    ∃ c d, c.StandsAt endedEarly 0 ∧ Handled c d ∧ ∃ j, 0 < j ∧ d.StandsAt endedEarly j := by
  obtain ⟨-, hcut, -, hfirst, -, hplaces, -⟩ := reading_progresses endedEarly
  let after : Cursor := ⟨[.layout .newline ⟨1, 1⟩], .layout .endOfInput ⟨2, 2⟩, ⟨1, 1⟩⟩
  have hread : operandAfter (exprBelow 2) ⟨.name, "x", ⟨⟨0, 1⟩, ⟨1, 1⟩⟩⟩ after (Nat.lt_succ_self 1) =
      .ok (.here (.name ⟨⟨0, 1⟩, ⟨1, 1⟩⟩ "x") after) := rfl
  have hname : Handled (Cursor.ofTokens endedEarly) after := .operand rfl hread
  exact ⟨hcut (endedEarly.take 2) (.layout .endOfInput ⟨2, 2⟩) (endedEarly.drop 3) rfl rfl,
    _, after, hfirst, hname, (hplaces _ 0 hfirst).2.2.2.1 after hname⟩

end TypeWatch.Reading
