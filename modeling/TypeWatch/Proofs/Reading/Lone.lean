import TypeWatch.Proofs.Reading.Level
import TypeWatch.Proofs.Reading.Rereading
import TypeWatch.Proofs.Reading.Seam
import TypeWatch.Proofs.Reading.Suite
import TypeWatch.Proofs.Token.InLine

/-! # Expressions on a line of their own

Words that are read as an expression where nothing else stands are read as the same expression before any comma, any
closing bracket and any other stop (`Lone`), and what they open they close. At a level at which not every operator
belongs to them, they are read up to such an operator. -/
namespace TypeWatch
set_option autoImplicit false

/-! ## Texts -/

namespace Expr

def isTuple : Expr → Bool
  | tuple .. => true
  | _ => false

/-- Whether an expression is a tuple without parentheses: it begins where its first element does. -/
def isOpenTuple : Expr → Bool
  | tuple s (first :: _) => decide (s.start = first.span.start)
  | _ => false

theorem isOpenTuple_of_isTuple {e : Expr} (h : e.isTuple = false) : e.isOpenTuple = false := by
  cases e with
  | tuple => cases h
  | _ => rfl

/-- Whether an expression at a level takes all tokens of a line. -/
def isWholeOf (level : Power) (tokens : List Token) : Bool :=
  match Reading.expr level (Reading.Cursor.ofTokens tokens) with
  | .ok a => a.next.kind = .newline
  | .error _ => false

/-- Whether a text is an expression at a level, and nothing of it is left. -/
def isWholeAt (level : Power) (text : String) : Bool :=
  match tokenize (Text.trimmed text) with
  | .ok tokens => isWholeOf level tokens
  | .error _ => false

end Expr

namespace Reading

/-! ## Lines -/

/-- A place before some words and the end of their line. -/
structure LineOf (ws : List Word) (c : Cursor) : Prop where
  sound : c.Sound
  words : c.words = ws ++ [(.newline, "")]
  noLayout : ∀ w ∈ ws, w.1.isLayout = false

section Lines

variable {ws more : List Word} {next : Word} {c d : Cursor} {level : Power} {a : Advanced Expr c}

/-- What is read on the line is read before another border as well, with the same words left over. -/
theorem LineOf.elsewhere (hline : LineOf ws c) (ha : expr level c = .ok a) (hd : d.words = ws ++ next :: more)
    (hmeets : Meets (· = next.1) (depthOver 0 (ws.map Prod.fst)) .newline next.1)
    (hsafe : next.1 = .op .comma → yieldsOpenly 0 (ws.map Prod.fst) = false) :
    ∃ vs, a.next.words = vs ++ [(.newline, "")] ∧ (∀ w ∈ vs, w.1.isLayout = false) ∧
      depthOver 0 (vs.map Prod.fst) = depthOver 0 (ws.map Prod.fst) ∧
      (expr level d).Finds fun e e1 => e.bare = a.value.bare ∧ e1.words = vs ++ next :: more := by
  obtain ⟨ts, us, hrest, rfl, hus⟩ := List.map_eq_append_iff.mp hline.words
  obtain ⟨u, rfl, hu⟩ := List.map_eq_singleton_iff.mp hus
  have hkinds (ts : List Token) : (ts.map Token.word).map Prod.fst = ts.map Token.kind := List.map_map
  have hnewline : u.kind = .newline := congrArg Prod.fst hu
  rw [hkinds] at hmeets hsafe ⊢
  rw [← hnewline] at hmeets
  have hno : ∀ t ∈ ts, t.kind.isLayout = false := fun t ht => hline.noLayout t.word (List.mem_map_of_mem ht)
  obtain ⟨ts', hnext, hsuffix, hdepth, hfinds⟩ := expr_elsewhere hline.sound hrest hno hmeets hsafe hd ha
  refine ⟨ts'.map Token.word, ?_, ?_, by rw [hkinds, hdepth], hfinds⟩
  · rw [Cursor.words, hnext, List.map_append, List.map_singleton, hu]
  · intro w hw
    obtain ⟨t, ht, rfl⟩ := List.mem_map.mp hw
    exact hsuffix t ht

/-- What is left over on a line of which all is read. -/
theorem eq_nil_of_kind {vs : List Word} (hwords : c.words = vs ++ [(.newline, "")])
    (hno : ∀ w ∈ vs, w.1.isLayout = false) (hkind : c.kind = .newline) : vs = [] := by
  cases vs with
  | nil => rfl
  | cons v vs =>
    have hv := hno v List.mem_cons_self
    rw [← Cursor.kind_of_words hwords, hkind] at hv
    cases hv

theorem LineOf.balanced (hline : LineOf ws c) (ha : expr level c = .ok a) (hend : a.next.kind = .newline) :
    depthOver 0 (ws.map Prod.fst) = 0 := by
  obtain ⟨vs, hwords, hno, hdepth, -⟩ := hline.elsewhere ha hline.words .line nofun
  rw [eq_nil_of_kind hwords hno hend] at hdepth
  exact hdepth.symm

/-- No bracket is closed that is not open. -/
theorem LineOf.enclosed (hline : LineOf ws c) (ha : expr level c = .ok a) (hend : a.next.kind = .newline) :
    Enclosed 0 (ws.map Prod.fst) := by
  intro pre o post hws ho
  rcases Nat.eq_zero_or_pos (depthOver 0 pre) with hzero | hpos
  · exfalso
    obtain ⟨ts, us, hrest, rfl, -⟩ := List.map_eq_append_iff.mp hline.words
    rw [List.map_map] at hws
    obtain ⟨ts1, ts2, rfl, rfl, hts2⟩ := List.map_eq_append_iff.mp hws
    obtain ⟨t, ts2, rfl, ht, -⟩ := List.map_eq_cons_iff.mp hts2
    replace ht : t.kind = .op o := ht
    have hborder : isBorder t.kind = true ∧ t.kind ≠ .op .comma ∧ t.kind ≠ .newline := by
      rw [ht]
      cases o <;> first | exact ⟨rfl, by decide, by decide⟩ | cases ho
    have hno : ∀ u ∈ ts1, u.kind.isLayout = false := fun u hu =>
      hline.noLayout u.word (List.mem_map_of_mem (List.mem_append_left _ hu))
    -- the stream could end before the bracket, where the line goes on
    let d : Cursor := ⟨ts1 ++ [Token.layout .newline .first], c.last, .first⟩
    have hd : d.words = ts1.map Token.word ++ (.newline, "") :: [] := List.map_append
    obtain ⟨ts', hnext, hno', -⟩ := expr_elsewhere (w := (.newline, "")) hline.sound (hrest.trans (List.append_assoc _ _ _)) hno
      (.border hzero hborder.1 rfl hborder.2.1 rfl) nofun hd ha
    rw [Cursor.kind, Cursor.token, hnext] at hend
    cases ts' with
    | nil => exact hborder.2.2 hend
    | cons u ts' =>
      have hu := hno' u List.mem_cons_self
      rw [show u.kind = .newline from hend] at hu
      cases hu
  · exact hpos

end Lines

/-! ## Before stops -/

/-- What an expression is followed by where it stands with others: a stop, before which nothing is yielded openly
if it is a comma. -/
structure Borders (ws : List Word) (next : Word) : Prop where
  stops : isStop next.1 = true
  safe : next.1 = .op .comma → yieldsOpenly 0 (ws.map Prod.fst) = false

/-- Words that are read as an expression at a level before any stop. -/
def Whole (level : Power) (ws : List Word) (e : Expr) : Prop :=
  ∀ (c : Cursor) (next : Word) (more : List Word), Borders ws next → c.words = ws ++ next :: more →
    (expr level c).Finds fun e' d => e'.bare = e.bare ∧ d.words = next :: more

/-- Words of which an operator is left over at a level. -/
def Short (level : Power) (ws : List Word) : Prop :=
  ∀ (c : Cursor) (next : Word) (more : List Word), Borders ws next → c.words = ws ++ next :: more →
    (expr level c).Finds fun _ d => Power.least < infixLevel d.kind

section Lines

variable {ws : List Word} {c : Cursor} {level : Power} {a : Advanced Expr c}

theorem LineOf.whole (hline : LineOf ws c) (ha : expr level c = .ok a) (hend : a.next.kind = .newline) :
    Whole level ws a.value := by
  intro d next more hborders hd
  have hmeets : Meets (· = next.1) (depthOver 0 (ws.map Prod.fst)) .newline next.1 :=
    .border (hline.balanced ha hend) rfl hborders.stops nofun rfl
  obtain ⟨vs, hwords, hno, -, hfinds⟩ := hline.elsewhere ha hd hmeets hborders.safe
  obtain rfl := eq_nil_of_kind hwords hno hend
  exact hfinds

theorem LineOf.short (hline : LineOf ws c) (hbalanced : depthOver 0 (ws.map Prod.fst) = 0)
    (ha : expr level c = .ok a) (hend : Power.least < infixLevel a.next.kind) : Short level ws := by
  intro d next more hborders hd
  have hmeets : Meets (· = next.1) (depthOver 0 (ws.map Prod.fst)) .newline next.1 :=
    .border hbalanced rfl hborders.stops nofun rfl
  obtain ⟨vs, hwords, hno, -, hfinds⟩ := hline.elsewhere ha hd hmeets hborders.safe
  cases vs with
  | nil =>
    rw [Cursor.kind_of_words hwords] at hend
    cases hend
  | cons v vs =>
    refine Finds.imp hfinds fun b hb => ?_
    rw [Cursor.kind_of_words hwords] at hend
    rw [Cursor.kind_of_words hb.2]
    exact hend

end Lines

/-! ## Texts on a line of their own -/

/-- A text within a line that is read as an expression, and how it is read where other words follow. -/
structure Lone (text : String) (e : Expr) : Prop where
  words : LineWords text (wordsOf text)
  opens : ∃ w rest, wordsOf text = w :: rest ∧ opensExpr w.1 = true
  balanced : depthOver 0 ((wordsOf text).map Prod.fst) = 0
  enclosed : Enclosed 0 ((wordsOf text).map Prod.fst)
  least : Expr.isWholeAt .least text = true
  named : e.isNamed = false → Expr.isWholeAt .named text = true
  whole : ∀ level, Expr.isWholeAt level text = true → Whole level (wordsOf text) e
  short : ∀ level, Expr.isWholeAt level text = false → Short level (wordsOf text)

section Texts

variable {text : String} {tokens : List Token} {e : Expr}

theorem isWholeAt_iff (htokens : tokenize (Text.trimmed text) = .ok tokens) {level : Power}
    {a : Advanced Expr (Cursor.ofTokens tokens)} (ha : expr level _ = .ok a) :
    Expr.isWholeAt level text = true ↔ a.next.kind = .newline := by
  rw [Expr.isWholeAt, htokens]
  dsimp only
  rw [Expr.isWholeOf, ha]
  exact decide_eq_true_iff

/-- What is read of a line whose end is reached. -/
theorem lone_of_expr (hwords : LineWords text (wordsOf text)) (htokens : tokenize (Text.trimmed text) = .ok tokens)
    (hline : LineOf (wordsOf text) (Cursor.ofTokens tokens)) {a : Advanced Expr (Cursor.ofTokens tokens)}
    (ha : expr .least _ = .ok a) (hend : a.next.kind = .newline) : Lone text a.value where
  words := hwords
  opens := by
    have hopens := opensExpr_of_expr ha
    cases hcons : wordsOf text with
    | nil =>
      rw [hcons] at hline
      rw [Cursor.kind_of_words hline.words] at hopens
      cases hopens
    | cons w ws =>
      rw [hcons] at hline
      rw [Cursor.kind_of_words hline.words] at hopens
      exact ⟨w, ws, rfl, hopens⟩
  balanced := hline.balanced ha hend
  enclosed := hline.enclosed ha hend
  least := (isWholeAt_iff htokens ha).mpr hend
  named hnamed := (isWholeAt_iff htokens (expr_named ha hnamed (by rw [hend]; nofun))).mpr hend
  whole level hwhole := by
    obtain ⟨b, hb, rfl | ⟨hleast, -⟩⟩ := expr_or_earlier level ha
    · exact hline.whole hb hend
    · rw [(isWholeAt_iff htokens hb).mp hwhole] at hleast
      cases hleast
  short level hshort := by
    obtain ⟨b, hb, rfl | ⟨hleast, -⟩⟩ := expr_or_earlier level ha
    · rw [(isWholeAt_iff htokens hb).mpr hend] at hshort
      cases hshort
    · exact hline.short (hline.balanced ha hend) hb hleast

/-- Nothing is left over on a line that is read as an expression. -/
theorem LineOf.ends {ws : List Word} {c : Cursor} (hline : LineOf ws c) {level : Power} {a : Advanced Expr c}
    (ha : expr level c = .ok a) (hempty : a.next.skipNewlines.rest.isEmpty = true) : a.next.kind = .newline := by
  obtain ⟨vs, hwords, hno, -⟩ := hline.elsewhere ha hline.words .line nofun
  cases vs with
  | nil => exact Cursor.kind_of_words hwords
  | cons v vs =>
    -- a word that is no layout is not skipped
    have hv : a.next.kind ≠ .newline := by
      rw [Cursor.kind_of_words hwords]
      intro hkind
      have hlayout := hno v List.mem_cons_self
      rw [hkind] at hlayout
      cases hlayout
    obtain ⟨t, ts, hrest, -⟩ := Cursor.rest_of_words hwords
    rw [Cursor.skipNewlines, accept?_of_kind_ne hv] at hempty
    dsimp only at hempty
    rw [hrest] at hempty
    cases hempty

/-- The first of the expressions that a text is read as is all of it, unless a comma makes a tuple. -/
theorem expr_of_ofTokens (h : Expr.ofTokens tokens = .ok e) (htuple : e.isOpenTuple = false) :
    ∃ a, expr .least (Cursor.ofTokens tokens) = .ok a ∧ a.value = e ∧ a.next.skipNewlines.rest.isEmpty = true := by
  obtain ⟨⟨e', c1, h1⟩, hlist, hend⟩ := exists_of_bind_ok h
  obtain ⟨⟨first, c2, h2⟩, hfirst, hlist⟩ := exists_of_bind_ok hlist
  dsimp only at hlist hend
  split at hlist
  · obtain ⟨⟨others, c3, h3⟩, -, hlist⟩ := exists_of_bind_ok hlist
    obtain ⟨rfl, rfl⟩ := Advanced.mk.inj (Except.ok.inj hlist)
    split at hend
    · obtain rfl := Except.ok.inj hend
      cases (decide_eq_true rfl).symm.trans htuple
    · cases hend
  · obtain ⟨rfl, rfl⟩ := Advanced.mk.inj (Except.ok.inj hlist)
    split at hend
    · rename_i hempty
      exact ⟨_, hfirst, Except.ok.inj hend, hempty⟩
    · cases hend

/-- The empty text is no expression. -/
theorem trimmed_ne_nil (htokens : tokenize (Text.trimmed text) = .ok tokens) {level : Power}
    {a : Advanced Expr (Cursor.ofTokens tokens)} (ha : expr level _ = .ok a) : (Text.trimmed text).toList ≠ [] := by
  intro hnil
  have hempty : tokenize "" = .ok [Token.layout .endOfInput .first] := by
    rw [tokenize, String.toList_empty, Piece.split]
    rfl
  rw [String.toList_eq_nil_iff.mp hnil, hempty] at htokens
  obtain rfl := Except.ok.inj htokens
  cases opensExpr_of_expr ha

/-- A text within a line that is read as an expression but a tuple is read so before any border. -/
theorem lone_of_ofText (hline : Text.isInLine text = true) (h : Expr.ofText text = .ok e) (htuple : e.isTuple = false) :
    Lone text e := by
  obtain ⟨tokens, htokens, h⟩ := exists_of_bind_ok h
  obtain ⟨a, ha, rfl, hempty⟩ := expr_of_ofTokens h (Expr.isOpenTuple_of_isTuple htuple)
  obtain ⟨hlineWords, hwords⟩ := lineWords_of_tokenize hline htokens (trimmed_ne_nil htokens ha)
  have hline : LineOf (wordsOf text) (Cursor.ofTokens tokens) :=
    ⟨Cursor.ofTokens_sound (tokenize_placed htokens), words_ofTokens_line hlineWords.noLayout hwords,
      hlineWords.noLayout⟩
  exact lone_of_expr hlineWords htokens hline ha (hline.ends ha hempty)

end Texts

end Reading
end TypeWatch
