import TypeWatch.Proofs.Reading.Lone
import TypeWatch.Proofs.Reading.OneLine
import TypeWatch.Proofs.Reading.RoundTrip

/-! # Expressions as arguments

The value of an argument is the expression that its text is on its own, if all operators of it belong to it at the
level at which the value is read; otherwise the call is none, and no class begins so (`arguments_unpacked`). Only after
a single star that level is above some operators which no parentheses are needed for elsewhere. -/
namespace TypeWatch
set_option autoImplicit false

/-! ## Arguments as written -/

def Reading.Mark.text : Reading.Mark → String
  | plain => ""
  | list => "*"
  | mapping => "**"
  | named label => label ++ "="

structure Argument where
  mark : Reading.Mark
  value : String

namespace Argument

def text (a : Argument) : String := a.mark.text ++ a.value

/-- The text between the parentheses of a call. -/
def listed (args : List Argument) : String := String.intercalate "," (args.map text)

/-- Whether all of the value is read at the level of the mark. -/
def isWhole (a : Argument) : Bool := Expr.isWholeAt a.mark.level a.value

/-- An argument whose value is part of a line, and is an expression on its own. A value with a star before it is one
with another mark. -/
structure Fits (a : Argument) (e : Expr) : Prop where
  line : Text.isInLine a.value = true
  reads : Expr.ofText a.value = .ok e
  noTuple : e.isTuple = false
  noStar : a.mark = .plain ∨ a.mark = .list → (Text.trimmed a.value).toList.head? ≠ some '*'
  label : ∀ label, a.mark = .named label → IsName label

/-- An argument that others may follow: it leaves no quotes open, and yields nothing that would go on after a comma. -/
structure Separate (a : Argument) : Prop where
  closes : Text.closesQuotes a.value
  safe : Reading.yieldsOpenly 0 ((wordsOf a.value).map Prod.fst) = false

def words (a : Argument) : List Word := a.mark.words ++ wordsOf a.value

/-- What an argument is read as. -/
def read (a : Argument) (e : Expr) : Expr := a.mark.applied e

end Argument

namespace Reading

/-! ## Words of arguments -/

section Words

variable {a : Argument} {e : Expr}

/-- A sign before a value is no part of a longer operator. -/
theorem extendedBy_mark {o : Operator} (ho : o ∈ [Operator.star, .doubleStar, .assign]) {d : Char} (hequal : d ≠ '=')
    (hstar : o = .star → d ≠ '*') : Lexeme.extendedBy o d = false := by
  have hlonger : ∀ o ∈ [Operator.star, .doubleStar, .assign], ∀ p : Operator, p ∈ Operator.all →
      o.symbol.isPrefixOf p.symbol = true →
        (p.symbol.drop o.symbol.length).head? ∈ [none, some '='] ∨ o = .star ∧
          (p.symbol.drop o.symbol.length).head? = some '*' := by decide
  rw [Lexeme.extendedBy, List.any_eq_false]
  intro p hp hprefix
  obtain ⟨t, ht⟩ := List.isPrefixOf_iff_prefix.mp hprefix
  have hshort : o.symbol.isPrefixOf p.symbol = true :=
    List.isPrefixOf_iff_prefix.mpr ⟨[d] ++ t, by rw [← ht, List.append_assoc]⟩
  have hhead : (p.symbol.drop o.symbol.length).head? = some d := by
    rw [← ht, List.append_assoc, List.drop_left]
    rfl
  rcases hlonger o ho p hp hshort with hnone | ⟨rfl, hsome⟩
  · rw [hhead] at hnone
    simp [hequal] at hnone
  · exact hstar rfl (Option.some.inj (hhead.symm.trans hsome))

/-- Neither a sign of equality nor a star stands at the beginning of a value, unless the value begins with a star. -/
theorem Lone.head?_ne {text : String} (h : Lone text e) {d : Char} (hd : d ∈ text.toList.head?) :
    d ≠ '=' ∧ (d = '*' → (Text.trimmed text).toList.head? = some '*') := by
  obtain ⟨v, vs, hopen, hopens⟩ := h.opens
  constructor
  · rintro rfl
    obtain ⟨o, w, rest, hwords, hsymbol⟩ := h.words.sign hd (Or.inl rfl)
    obtain rfl := (List.cons.inj (hopen.symm.trans hwords)).1
    cases o <;> first | exact absurd hsymbol (by decide) | cases hopens
  · rintro rfl
    obtain ⟨o, w, rest, hwords, hsymbol⟩ := h.words.sign hd (Or.inr rfl)
    rw [h.words.operator hwords, hsymbol]

theorem Lone.cuts_argument (h : Lone a.value e) (ha : a.Fits e) {d : Char} (hd : d ∈ [')', ',']) (rest : List Char)
    (hquotes : Text.closesQuotes a.value ∨ ∀ c ∈ rest, Lexeme.isQuote c = false) :
    Cuts a.text.toList a.words (d :: rest) := by
  have hvalue := h.words.cuts rest hd hquotes
  have hfirst : ∀ c ∈ (a.value.toList ++ d :: rest).head?, c ≠ '=' ∧ (a.mark = .list → c ≠ '*') := by
    intro c hc
    cases hchars : a.value.toList with
    | nil =>
      rw [hchars] at hc
      obtain rfl := Option.some.inj hc
      have hboth := Lexeme.forall_of_all (p := fun d => d ≠ '=' ∧ d ≠ '*') (by decide) _ hd
      exact ⟨hboth.1, fun _ => hboth.2⟩
    | cons b cs =>
      rw [hchars] at hc
      obtain ⟨hequal, hstar⟩ := h.head?_ne (d := c) (by rw [hchars]; exact hc)
      exact ⟨hequal, fun hmark heq => ha.noStar (Or.inr hmark) (hstar heq)⟩
  have hsign {o : Operator} (ho : o ∈ [Operator.star, .doubleStar, .assign]) (hstar : o = .star → a.mark = .list) :
      Cuts o.symbol [opWord o] (a.value.toList ++ d :: rest) := by
    refine cuts_operator o (fun c hc => ?_) ?_
    · exact extendedBy_mark ho (hfirst c hc).1 fun heq => (hfirst c hc).2 (hstar heq)
    · rintro rfl
      exact absurd ho (by decide)
  rw [Argument.text, String.toList_append, Argument.words]
  refine Cuts.append ?_ hvalue
  cases hmark : a.mark with
  | plain => exact Cuts.nil _
  | list => exact hsign (o := .star) (by decide) fun _ => hmark
  | mapping => exact hsign (o := .doubleStar) (by decide) nofun
  | named label =>
    rw [Mark.text, String.toList_append]
    exact (cuts_name (ha.label label hmark) (Lexeme.edge_cons (by decide) _)).append
      (hsign (o := .assign) (by decide) nofun)

/-- Arguments are cut into their words before the closing parenthesis. -/
theorem cuts_listed (rest : List Char) (hno : ∀ c ∈ rest, Lexeme.isQuote c = false) {args : List Argument} {es : List Expr}
    (hfits : List.Forall₂ Argument.Fits args es) (hseparate : ∀ a ∈ args.dropLast, a.Separate) :
    Cuts (Argument.listed args).toList (commaBetween (args.map Argument.words)) (')' :: rest) := by
  induction hfits with
  | nil => exact Cuts.nil _
  | @cons a e args es ha hrest ih =>
    have hlone := lone_of_ofText ha.line ha.reads ha.noTuple
    cases hrest with
    | nil =>
      have hone := hlone.cuts_argument ha (d := ')') (by decide) rest (Or.inr hno)
      simpa [Argument.listed, commaBetween] using hone
    | @cons b _ args _ _ _ =>
      have htail := ih fun a' ha' => hseparate a' (List.mem_cons_of_mem a ha')
      have hcomma : Cuts ([','] ++ (Argument.listed (b :: args)).toList) (opWord .comma :: _) (')' :: rest) :=
        (cuts_single (o := .comma) (by decide) _).append htail
      have hclosed : Text.closesQuotes a.value := (hseparate a List.mem_cons_self).closes
      have hfirst := hlone.cuts_argument ha (d := ',') (by decide)
        ((Argument.listed (b :: args)).toList ++ ')' :: rest) (Or.inl hclosed)
      have hlisted : (Argument.listed (a :: b :: args)).toList =
          a.text.toList ++ ([','] ++ (Argument.listed (b :: args)).toList) := by
        simp [Argument.listed]
      rw [hlisted]
      exact hfirst.append hcomma

end Words

/-! ## Rows of arguments -/

section Rows

variable {n : Nat} {a : Argument} {args : List Argument} {e : Expr} {es : List Expr} {next : Word} {c : Cursor}
  {more : List Word}

/-- A word that ends an argument, unless something is yielded before a comma. -/
theorem borders_of_ends {ws : List Word} (hnext : next.1 = .op .comma ∨ next.1 = .op .closeParen)
    (hsafe : next.1 = .op .comma → yieldsOpenly 0 (ws.map Prod.fst) = false) : Borders ws next :=
  ⟨by rcases hnext with hkind | hkind <;> rw [hkind] <;> rfl, hsafe⟩

/-- A value without a mark does not begin with a star. -/
theorem Lone.noStar (h : Lone a.value e) (ha : a.Fits e) (hmark : a.mark = .plain) :
    ∀ w ∈ (wordsOf a.value).head?, w.1 ≠ .op .star := by
  rintro ⟨kind, w⟩ hw rfl
  obtain ⟨rest, hrest⟩ := List.head?_eq_some_iff.mp hw
  exact ha.noStar (Or.inl hmark) (h.words.operator hrest)

theorem Lone.argument_read (h : Lone a.value e) (ha : a.Fits e) (hwhole : a.isWhole = true)
    (hnext : next.1 = .op .comma ∨ next.1 = .op .closeParen)
    (hsafe : next.1 = .op .comma → yieldsOpenly 0 ((wordsOf a.value).map Prod.fst) = false) (hc : c.size < n)
    (hwords : c.words = a.words ++ next :: more) :
    (argument (exprBelow n) c hc).Finds fun x d => sameExpr x (a.read e) ∧ d.words = next :: more :=
  argument_whole a.mark hnext h.opens (fun d => h.whole _ hwhole d next more (borders_of_ends hnext hsafe))
    (h.noStar ha) hc (hwords.trans (List.append_assoc _ _ _))

/-- An operator is left over of a value that is not whole. -/
theorem Lone.argument_short (h : Lone a.value e) (hshort : a.isWhole = false)
    (hnext : next.1 = .op .comma ∨ next.1 = .op .closeParen)
    (hsafe : next.1 = .op .comma → yieldsOpenly 0 ((wordsOf a.value).map Prod.fst) = false) (hc : c.size < n)
    (hwords : c.words = a.words ++ next :: more) :
    (argument (exprBelow n) c hc).Finds fun _ d => d.kind ≠ .op .comma ∧ d.kind ≠ .op .closeParen := by
  obtain ⟨w, rest, hopen, hopens⟩ := h.opens
  have hfinds := argument_finds a.mark hc (hwords.trans (List.append_assoc _ _ _))
    ⟨w, rest ++ next :: more, by rw [hopen, List.cons_append], hopens⟩
    (fun d => h.short _ hshort d next more (borders_of_ends hnext hsafe)) fun hmark => by
      -- a value without a mark is whole
      rw [Argument.isWhole, hmark] at hshort
      cases h.least.symm.trans hshort
  refine hfinds.imp ?_
  rintro ⟨x, d, _⟩ ⟨_, hd, -⟩
  constructor <;> intro hkind <;> replace hd : Power.least < infixLevel d.kind := hd <;> rw [hkind] at hd <;> cases hd

theorem following_ends (wss : List (List Word)) : (following (opWord .closeParen) wss).1 = .op .comma ∨
    (following (opWord .closeParen) wss).1 = .op .closeParen := by
  cases wss with
  | nil => exact Or.inr rfl
  | cons _ _ => exact Or.inl rfl

/-- What holds of an argument that a comma follows. -/
theorem safe_of_separate (hseparate : ∀ b ∈ (a :: args).dropLast, b.Separate)
    (hcomma : (following (opWord .closeParen) (args.map Argument.words)).1 = .op .comma) :
    yieldsOpenly 0 ((wordsOf a.value).map Prod.fst) = false := by
  cases args with
  | nil => cases hcomma
  | cons b args => exact (hseparate a List.mem_cons_self).safe

theorem separate_tail (hseparate : ∀ b ∈ (a :: args).dropLast, b.Separate) : ∀ b ∈ args.dropLast, b.Separate := by
  intro b hb
  cases args with
  | nil => cases hb
  | cons b' args => exact hseparate b (List.mem_cons_of_mem a hb)

theorem row_of_fits (hfits : List.Forall₂ Argument.Fits args es) (hseparate : ∀ a ∈ args.dropLast, a.Separate)
    (hwhole : ∀ a ∈ args, a.isWhole = true) (n : Nat) :
    ArgumentRow n (args.map Argument.words) (List.zipWith Argument.read args es) := by
  induction hfits with
  | nil => exact .nil
  | @cons a e args es ha _ ih =>
    have hlone := lone_of_ofText ha.line ha.reads ha.noTuple
    have htail := ih (separate_tail hseparate) fun b hb => hwhole b (List.mem_cons_of_mem a hb)
    exact .cons (opensItem_of_opens a.mark hlone.opens) (fun c h more => hlone.argument_read ha
      (hwhole a List.mem_cons_self) (following_ends _) (safe_of_separate hseparate) h) htail

theorem stuck_of_fits (hfits : List.Forall₂ Argument.Fits args es) (hseparate : ∀ a ∈ args.dropLast, a.Separate)
    (hshort : ∃ a ∈ args, a.isWhole = false) (n : Nat) :
    Stuck (argument (exprBelow n)) (· = .op .closeParen) (opWord .closeParen) (args.map Argument.words) := by
  induction hfits with
  | nil =>
    obtain ⟨a, ha, -⟩ := hshort
    cases ha
  | @cons a e args es ha _ ih =>
    have hlone := lone_of_ofText ha.line ha.reads ha.noTuple
    have hopens := opensItem_of_opens a.mark hlone.opens
    cases hwhole : a.isWhole with
    | false =>
      exact .here hopens fun c h more => hlone.argument_short hwhole (following_ends _) (safe_of_separate hseparate) h
    | true =>
      refine .later hopens (fun c h more hc => ?_) (ih (separate_tail hseparate) ?_)
      · exact (hlone.argument_read ha hwhole (following_ends _) (safe_of_separate hseparate) h hc).imp fun _ hb => hb.2
      · obtain ⟨b, hb, hno⟩ := hshort
        rcases List.mem_cons.mp hb with rfl | hb
        · cases hwhole.symm.trans hno
        · exact ⟨b, hb, hno⟩

end Rows

/-! ## Calls and classes -/

section Calls

variable {n : Nat} {wss : List (List Word)} {es : List Expr} {c : Cursor} {more : List Word}

/-- Arguments of which something is left over do not end with a parenthesis. -/
theorem extendAfter_fails (hstuck : Stuck (argument (exprBelow n)) (· = .op .closeParen) (opWord .closeParen) wss)
    {t : Token} (ht : t.kind = .op .openParen) (left : Expr) (h : c.size < n)
    (hc : c.words = commaBetween wss ++ opWord .closeParen :: more) : Fails (extendAfter (exprBelow n) left t c h) := by
  rw [extendAfter, ht]
  refine MayRead.fails_bind (hstuck.anyItems_finds c h hc) ?_
  intro items d hle hd
  exact fails_bind (fails_map (Cursor.expect_fails hd) _) _

theorem call_fails (hstuck : ∀ n, Stuck (argument (exprBelow n)) (· = .op .closeParen) (opWord .closeParen) wss)
    {id : String} (hc : c.words = (.name, id) :: opWord .openParen :: (commaBetween wss ++ opWord .closeParen :: more)) :
    Fails (expr .least c) := by
  obtain ⟨t, c1, h1, hnext, ht, hc1⟩ := Cursor.next?_of_words hc
  have hoperand : (operand (exprBelow c.size) c c.size_upTo).Finds fun _ d => d.words = c1.words := by
    rw [operand, hnext]
    refine MayRead.finds_since ?_ h1
    rw [operandAfter, show t.kind = .name from congrArg Prod.fst ht]
    exact finds_ok rfl
  rw [expr]
  refine Read.fails_bind hoperand ?_
  intro left d hlt hd
  obtain ⟨u, d1, h2, hnext', hu, hd1⟩ := Cursor.next?_of_words (hd.trans hc1)
  have hkind : u.kind = .op .openParen := congrArg Prod.fst hu
  have hlevel : Power.least < infixLevel d.kind := by
    rw [kind_of_next? hnext', hkind]
    decide
  have hextend : Fails (extend (exprBelow c.size) .least left d hlt) := by
    rw [extend, if_pos hlevel, hnext']
    exact fails_bind (fails_map (extendAfter_fails (hstuck _) hkind left _ hd1) _) _
  exact fails_map hextend _

theorem bases_finds (hrow : ∀ n, ArgumentRow n wss es)
    (hc : c.words = inParentheses (commaBetween wss) ++ more) : (bases c).Finds fun parents d =>
      List.Forall₂ sameExpr parents es ∧ d.words = more := by
  rw [inParentheses_append] at hc
  have hopen : c.kind = .op .openParen := Cursor.kind_of_words hc
  rw [bases, if_pos hopen]
  refine Read.finds_moved (Read.finds_bind (Cursor.expect_finds hc) ?_)
  rintro _ c1 h1 ⟨-, hc1⟩
  refine Read.finds_bind (MayRead.finds_since ((hrow _).anyItems_finds (by decide) c1 _ hc1) h1) ?_
  rintro parents c2 h2 ⟨hparents, hc2⟩
  refine Read.finds_bind (Read.finds_since (Cursor.expect_finds hc2) h2) ?_
  rintro _ d _ ⟨-, hd⟩
  exact finds_ok ⟨hparents, hd⟩

theorem bases_fails (hstuck : ∀ n, Stuck (argument (exprBelow n)) (· = .op .closeParen) (opWord .closeParen) wss)
    (hc : c.words = inParentheses (commaBetween wss) ++ more) : Fails (bases c) := by
  rw [inParentheses_append] at hc
  have hopen : c.kind = .op .openParen := Cursor.kind_of_words hc
  rw [bases, if_pos hopen]
  refine fails_map (Read.fails_bind (Cursor.expect_finds hc) ?_) _
  rintro _ c1 h1 ⟨-, hc1⟩
  refine Read.fails_bind (MayRead.finds_since ((hstuck _).anyItems_finds c1 _ hc1) h1) ?_
  intro parents d h2 hd
  exact fails_bind (fails_map (Cursor.expect_fails hd) _) _

/-- The words of a call of a name. They also stand in the header of a class. -/
def callWords (id : String) (wss : List (List Word)) : List Word := (.name, id) :: inParentheses (commaBetween wss)

theorem readerOf_class (hrow : ∀ n, ArgumentRow n wss es) (id : String) :
    ReaderOf .kwClass (callWords id wss ++ passWords) fun r => r.Finds fun s d =>
      (∃ p q parents, s = .classDef p id [] parents [.word q .kwPass] ∧ List.Forall₂ sameExpr parents es) ∧
        d.words = [] := by
  intro n sub t c h ht hc
  refine ⟨classDef sub t.span.start [] c h, by rw [compound?, ht], ?_⟩
  refine Read.finds_bind (Cursor.expectName_finds hc) ?_
  rintro _ c1 h1 ⟨rfl, hc1⟩
  refine Read.finds_bind (MayRead.finds_since (bases_finds hrow hc1) h1) ?_
  rintro parents c2 h2 ⟨hparents, hc2⟩
  refine Read.finds_bind (Read.finds_since (suite_pass (below_of_lt h2 h) hc2) h2) ?_
  rintro _ d _ ⟨⟨q, rfl⟩, hd⟩
  exact finds_ok ⟨⟨_, q, parents, rfl, hparents⟩, hd⟩

theorem readerOf_class_fails
    (hstuck : ∀ n, Stuck (argument (exprBelow n)) (· = .op .closeParen) (opWord .closeParen) wss) (id : String) :
    ReaderOf .kwClass (callWords id wss ++ passWords) fun r => Fails r := by
  intro n sub t c h ht hc
  refine ⟨classDef sub t.span.start [] c h, by rw [compound?, ht], ?_⟩
  refine Read.fails_bind (Cursor.expectName_finds hc) ?_
  rintro _ c1 h1 ⟨rfl, hc1⟩
  exact fails_bind (fails_map (bases_fails hstuck hc1) _) _

end Calls

/-! ## Texts of calls and classes -/

section Texts

variable {id : String} {args : List Argument} {es : List Expr} (hid : IsName id)
  (hfits : List.Forall₂ Argument.Fits args es) (hseparate : ∀ a ∈ args.dropLast, a.Separate)

include hid hfits hseparate

theorem cuts_call {rest : List Char} {ws : List Word} (hno : ∀ c ∈ rest, Lexeme.isQuote c = false)
    (hrest : Cuts rest ws []) : Cuts (id.toList ++ '(' :: ((Argument.listed args).toList ++ ')' :: rest))
      (callWords id (args.map Argument.words) ++ ws) [] := by
  rw [callWords, List.cons_append, inParentheses_append]
  have hclose : Cuts ([')'] ++ rest) (opWord .closeParen :: ws) [] :=
    (cuts_single (o := .closeParen) (by decide) _).append hrest
  have hlisted := cuts_listed (rest ++ []) (by rwa [List.append_nil]) hfits hseparate
  have hopen : Cuts (['('] ++ ((Argument.listed args).toList ++ ([')'] ++ rest))) _ [] :=
    (cuts_single (o := .openParen) (by decide) _).append (hlisted.append hclose)
  exact (cuts_name hid (Lexeme.edge_cons (by decide) _)).append hopen

/-- The text of a call and its words. -/
theorem call_text : ∃ c cs, (id ++ "(" ++ Argument.listed args ++ ")").toList = c :: cs ∧
    Lexeme.startsToken c = true ∧ Text.isBlank c = false ∧ Expr.Closes (id ++ "(" ++ Argument.listed args ++ ")") ∧
    Cuts (c :: cs) (callWords id (args.map Argument.words)) [] := by
  obtain ⟨c, cs, hchars, hopen⟩ := hid.opens
  have hcuts := cuts_call hid hfits hseparate (List.forall_mem_nil _) (Cuts.nil [])
  have htext : (id ++ "(" ++ Argument.listed args ++ ")").toList =
      id.toList ++ '(' :: ((Argument.listed args).toList ++ [')']) := by simp
  rw [List.append_nil, ← htext] at hcuts
  rw [hchars, List.cons_append] at htext
  rw [htext] at hcuts
  exact ⟨c, _, htext, Lexeme.startsToken_of_opensName hopen,
    isBlank_of_continuesName (Text.continuesName_of_opensName c hopen), Expr.Closes.append ⟨')', rfl, by decide⟩ _, hcuts⟩

theorem ofText_call (hwhole : ∀ a ∈ args, a.isWhole = true) :
    ∃ c, Expr.ofText (id ++ "(" ++ Argument.listed args ++ ")") = .ok c ∧
      c.bare = (Expr.call default (.name default id) (List.zipWith Argument.read args es)).bare := by
  obtain ⟨c, cs, htext, hstarts, hblank, hcloses, hcuts⟩ := call_text hid hfits hseparate
  have hphrase := phrase_callee default (phrase_name default id) (row_of_fits hfits hseparate hwhole)
  exact Expr.ofText_of_stands htext hstarts hblank hcloses hcuts ⟨_, _, by decide, hphrase⟩

theorem ofText_call_fails (hshort : ∃ a ∈ args, a.isWhole = false) :
    Fails (Expr.ofText (id ++ "(" ++ Argument.listed args ++ ")")) := by
  obtain ⟨c, cs, htext, hstarts, hblank, hcloses, hcuts⟩ := call_text hid hfits hseparate
  obtain ⟨tokens, htokens, hwords⟩ := tokenize_words hstarts hcuts
  have hc := words_ofTokens_line hcuts.noLayout hwords
  rw [callWords, List.cons_append, inParentheses_append] at hc
  rw [← htext, String.ofList_toList] at htokens
  rw [Expr.ofText, Expr.trimmed_eq htext hblank hcloses, htokens]
  exact fails_bind (fails_bind (call_fails (stuck_of_fits hfits hseparate hshort) hc) _) _

theorem class_text : ∃ rest, ("class " ++ id ++ "(" ++ Argument.listed args ++ "): pass").toList =
      Keyword.kwClass.spelling.toList ++ rest ∧
    Cuts ("class " ++ id ++ "(" ++ Argument.listed args ++ "): pass").toList
      (keyWord .kwClass :: (callWords id (args.map Argument.words) ++ [opWord .colon, keyWord .kwPass])) [] := by
  have hcall := cuts_call hid hfits hseparate (Lexeme.forall_of_all (by decide)) cuts_pass
  have htext : ("class " ++ id ++ "(" ++ Argument.listed args ++ "): pass").toList = Keyword.kwClass.spelling.toList ++
      ([' '] ++ (id.toList ++ '(' :: ((Argument.listed args).toList ++ ')' :: ": pass".toList))) := by
    simp [Keyword.spelling]
  refine ⟨_, htext, ?_⟩
  rw [htext]
  have hblank : Cuts ([' '] ++ _) _ [] := (Cuts.blank (by rw [List.append_nil]; exact hid.head? _)).append hcall
  exact (cuts_keyword .kwClass (Lexeme.edge_cons (by decide) _)).append hblank

end Texts

/-! ## Whole values -/

/-- Only after a single star are there operators which are left over, a named expression aside. -/
theorem isWhole_of_fits {a : Argument} {e : Expr} (ha : a.Fits e) (hmark : a.mark ≠ .list) (hnamed : e.isNamed = false) :
    a.isWhole = true := by
  have hlone := lone_of_ofText ha.line ha.reads ha.noTuple
  rw [Argument.isWhole]
  cases hlevel : a.mark with
  | plain => exact hlone.least
  | list => exact absurd hlevel hmark
  | mapping | named label => exact hlone.named hnamed

/-- Values that are expressions on their own are read as arguments of a call and in the header of a class, each under
its mark and nothing else, if they are whole; if one is not, neither the call nor the class is read. -/
theorem arguments_unpacked {id : String} (hid : IsName id) {args : List Argument} {es : List Expr}
    (hfits : List.Forall₂ Argument.Fits args es) (hseparate : ∀ a ∈ args.dropLast, a.Separate) :
    (∀ p ∈ args.zip es, p.1.mark ≠ .list → p.2.isNamed = false → p.1.isWhole = true) ∧
    ((∀ a ∈ args, a.isWhole = true) →
      (∃ c, Expr.ofText (id ++ "(" ++ Argument.listed args ++ ")") = .ok c ∧
        c.bare = (Expr.call default (.name default id) (List.zipWith Argument.read args es)).bare) ∧
      ∃ m p q parents, Module.ofText ("class " ++ id ++ "(" ++ Argument.listed args ++ "): pass") = .ok m ∧
        m.body = [.classDef p id [] parents [.word q .kwPass]] ∧
        Expr.bareList parents = Expr.bareList (List.zipWith Argument.read args es)) ∧
    ((∃ a ∈ args, a.isWhole = false) →
      (∀ c, Expr.ofText (id ++ "(" ++ Argument.listed args ++ ")") ≠ .ok c) ∧
      ∀ m, Module.ofText ("class " ++ id ++ "(" ++ Argument.listed args ++ "): pass") ≠ .ok m) := by
  obtain ⟨rest, htext, hcuts⟩ := class_text hid hfits hseparate
  refine ⟨?_, fun hwhole => ⟨ofText_call hid hfits hseparate hwhole, ?_⟩, fun hshort => ⟨?_, ?_⟩⟩
  · rintro ⟨a, e⟩ hmem
    exact isWhole_of_fits ((List.forall₂_iff_zip.mp hfits).2 hmem)
  · have hreader := readerOf_class (row_of_fits hfits hseparate hwhole) id
    obtain ⟨m, _, hm, hbody, p, q, parents, rfl, hparents⟩ := ofText_finds htext hcuts hreader
    exact ⟨m, p, q, parents, hm, hbody, bareList_eq hparents⟩
  · exact ofText_call_fails hid hfits hseparate hshort
  · exact ofText_fails htext hcuts (readerOf_class_fails (stuck_of_fits hfits hseparate hshort) id)

theorem exists_fits {a : Argument} (hline : Text.isInLine a.value = true)
    (hreads : (Expr.ofText a.value).toOption.any (fun e => decide (e.isTuple = false)) = true)
    (hstar : (Text.trimmed a.value).toList.head? ≠ some '*') (hlabel : ∀ label, a.mark = .named label → IsName label) :
    ∃ e, a.Fits e := by
  cases h : Expr.ofText a.value with
  | error fault =>
    rw [h] at hreads
    cases hreads
  | ok e =>
    rw [h] at hreads
    exact ⟨e, hline, h, of_decide_eq_true hreads, fun _ => hstar, hlabel⟩

/-- One argument of each kind, with operators as weak as the mark lets them be. -/
def mixedArguments : List Argument :=
  [⟨.plain, "x := y"⟩, ⟨.list, "-a.b | lambda: c or d"⟩, ⟨.mapping, "e if not f else g"⟩, ⟨.named "k", " h in i"⟩]

theorem arguments_unpacked_mixed : ∃ es, List.Forall₂ Argument.Fits mixedArguments es ∧
    ∃ c, Expr.ofText ("f" ++ "(" ++ Argument.listed mixedArguments ++ ")") = .ok c ∧
      c.bare = (Expr.call default (.name default "f") (List.zipWith Argument.read mixedArguments es)).bare := by
  have hnames : IsName "f" ∧ IsName "k" :=
    ⟨isName_singleton rfl (by decide) (by decide), isName_singleton rfl (by decide) (by decide)⟩
  obtain ⟨e1, h1⟩ : ∃ e, (⟨.plain, "x := y"⟩ : Argument).Fits e :=
    exists_fits (by decide +kernel) (by decide +kernel) (by decide +kernel) nofun
  obtain ⟨e2, h2⟩ : ∃ e, (⟨.list, "-a.b | lambda: c or d"⟩ : Argument).Fits e :=
    exists_fits (by decide +kernel) (by decide +kernel) (by decide +kernel) nofun
  obtain ⟨e3, h3⟩ : ∃ e, (⟨.mapping, "e if not f else g"⟩ : Argument).Fits e :=
    exists_fits (by decide +kernel) (by decide +kernel) (by decide +kernel) nofun
  obtain ⟨e4, h4⟩ : ∃ e, (⟨.named "k", " h in i"⟩ : Argument).Fits e :=
    exists_fits (by decide +kernel) (by decide +kernel) (by decide +kernel) fun label hlabel =>
      Mark.named.inj hlabel ▸ hnames.2
  have hfits : List.Forall₂ Argument.Fits mixedArguments [e1, e2, e3, e4] := .cons h1 (.cons h2 (.cons h3 (.cons h4 .nil)))
  have hwhole : ∀ a ∈ mixedArguments, a.isWhole = true := by decide +kernel
  have hseparate : ∀ a ∈ mixedArguments.dropLast, a.Separate := by
    have hboth : ∀ a ∈ mixedArguments.dropLast, Text.closesQuotes a.value ∧
        yieldsOpenly 0 ((wordsOf a.value).map Prod.fst) = false := by decide +kernel
    exact fun a ha => ⟨(hboth a ha).1, (hboth a ha).2⟩
  exact ⟨_, hfits, ((arguments_unpacked hnames.1 hfits hseparate).2.1 hwhole).1⟩

/-- A disjunction is no value after a single star, though it is an expression. -/
theorem disjunction_not_unpacked : ¬ ∀ text e, Text.isInLine text = true → Expr.ofText text = .ok e →
    e.isTuple = false → e.isNamed = false → (∀ s value, e ≠ .starred s value) →
    (∀ s value delegates, e ≠ .yield s value delegates) → ∃ c, Expr.ofText ("f(*" ++ text ++ ")") = .ok c ∧
      c.bare = (Expr.call default (.name default "f") [.starred default e]).bare := by
  have hread : (Expr.ofText "a or b").toOption.any (fun e => decide (e.operator? = some .or)) = true := by decide +kernel
  have hrefused : (Expr.ofText ("f(*" ++ "a or b" ++ ")")).isOk = false := by decide +kernel
  intro hall
  cases h : Expr.ofText "a or b" with
  | error fault =>
    rw [h] at hread
    cases hread
  | ok e =>
    rw [h] at hread
    replace hread : e.operator? = some .or := of_decide_eq_true hread
    cases e with
    | binary s left op right =>
      obtain ⟨c, hc, -⟩ := hall "a or b" _ (by decide +kernel) h rfl rfl (by rintro _ _ ⟨⟩) (by rintro _ _ _ ⟨⟩)
      rw [hc] at hrefused
      cases hrefused
    | _ => cases hread

end Reading
end TypeWatch
