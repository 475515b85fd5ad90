import TypeWatch.Proofs.Reading.ParameterText
import TypeWatch.Proofs.Reading.RoundTrip

/-! # Parameter lists in order

A list with a slash after the parameters that are positional only, and with a star before those that are keyword only
if none takes the other arguments, is read as these parameters, in a function as in a lambda (`parameters_read`),
however its words are spaced. With one blank after each comma its text is cut into these words
(`Signature.defText_written`, `Signature.lambdaText_written`). -/
namespace TypeWatch.Reading
set_option autoImplicit false

/-! ## As written -/

def Hinted.parameter (kind : ParameterKind) (p : Hinted) : Parameter := .mk default kind p.name (valueOf p.hint) none

def Plain.parameter (kind : ParameterKind) (p : Plain) : Parameter :=
  .mk default kind p.name (valueOf p.hint) (valueOf p.standard)

/-- Entries between commas. After the last one of some entries a comma may stand. -/
def listWords : List Slot → Bool → List Word
  | s :: ss, true => commaBetween ((s :: ss).map Slot.words) ++ [opWord .comma]
  | ss, _ => commaBetween (ss.map Slot.words)

/-- The parameters of a list, kind by kind in the order in which they stand. -/
structure Signature where
  positional : List Plain
  regular : List Plain
  rest : Option Hinted
  keywords : List Plain
  others : Option Hinted

namespace Signature

/-- What ends the parameters that are positional only. -/
def slash (l : Signature) : List Slot :=
  match l.positional with
  | [] => []
  | _ :: _ => [.slash]

/-- What stands before the parameters that are keyword only. -/
def star (l : Signature) : List Slot :=
  match l.rest, l.keywords with
  | some p, _ => [.variadic p]
  | none, [] => []
  | none, _ :: _ => [.star]

def slots (l : Signature) : List Slot :=
  l.positional.map .plain ++ (l.slash ++ (l.regular.map .plain ++ (l.star ++ (l.keywords.map .plain ++
    l.others.toList.map .variadicKeywords))))

def words (l : Signature) (trailing : Bool) : List Word := listWords l.slots trailing

def parameters (l : Signature) : List Parameter :=
  l.positional.map (Plain.parameter .positionalOnly) ++ l.regular.map (Plain.parameter .regular) ++
    l.rest.toList.map (Hinted.parameter .variadic) ++ l.keywords.map (Plain.parameter .keywordOnly) ++
    l.others.toList.map (Hinted.parameter .variadicKeywords)

/-- The words of the shortest function with the parameters. -/
def defWords (l : Signature) (name : String) (trailing : Bool) : List Word :=
  keyWord .kwDef :: (.name, name) :: (inParentheses (l.words trailing) ++ [opWord .colon, keyWord .kwPass])

def lambdaWords (l : Signature) (trailing : Bool) (body : List Word) : List Word :=
  keyWord .kwLambda :: (l.words trailing ++ opWord .colon :: body)

/-! ## Kinds -/

section Kinds

variable (kind : ParameterKind) (before : List Parameter) (items : List ParameterItem)

theorem parametersOf_plain (ps : List Plain) : parametersOf kind before ((ps.map Slot.plain).map Slot.item ++ items) =
    parametersOf kind (before ++ ps.map (Plain.parameter kind)) items := by
  induction ps generalizing before with
  | nil => simp
  | cons p ps ih =>
    have hone : parametersOf kind before ((Slot.plain p).item :: ((ps.map Slot.plain).map Slot.item ++ items)) =
        parametersOf kind (before ++ [p.parameter kind]) ((ps.map Slot.plain).map Slot.item ++ items) := rfl
    simp only [List.map_cons, List.cons_append, hone, ih, List.append_assoc, List.nil_append]

/-- A slash makes those before it positional only. -/
theorem parametersOf_slash (l : Signature) :
    parametersOf .regular (l.positional.map (Plain.parameter .regular)) (l.slash.map Slot.item ++ items) =
      parametersOf .regular (l.positional.map (Plain.parameter .positionalOnly)) items := by
  unfold slash
  cases l.positional with
  | nil => rfl
  | cons p ps =>
    have hmap : ((p :: ps).map (Plain.parameter .regular)).map positionalOnly =
        (p :: ps).map (Plain.parameter .positionalOnly) := by
      rw [List.map_map]
      rfl
    show parametersOf .regular (((p :: ps).map (Plain.parameter .regular)).map positionalOnly) items = _
    rw [hmap]

theorem parametersOf_others (others : Option Hinted) :
    parametersOf kind before ((others.toList.map Slot.variadicKeywords).map Slot.item) =
      before ++ others.toList.map (Hinted.parameter .variadicKeywords) := by
  cases others with
  | none => simp [parametersOf]
  | some p => rfl

/-- Whatever stands before the parameters that are keyword only makes them so. -/
theorem parametersOf_star (l : Signature) : parametersOf .regular before (l.star.map Slot.item ++
    ((l.keywords.map Slot.plain).map Slot.item ++ (l.others.toList.map Slot.variadicKeywords).map Slot.item)) =
      before ++ (l.rest.toList.map (Hinted.parameter .variadic) ++ (l.keywords.map (Plain.parameter .keywordOnly) ++
        l.others.toList.map (Hinted.parameter .variadicKeywords))) := by
  unfold star
  cases l.rest with
  | some p =>
    show parametersOf .keywordOnly (before ++ [p.parameter .variadic])
      ((l.keywords.map Slot.plain).map Slot.item ++ _) = _
    rw [parametersOf_plain, parametersOf_others]
    simp
  | none =>
    cases l.keywords with
    | nil => exact (parametersOf_others _ _ _).trans (by simp)
    | cons q qs =>
      show parametersOf .keywordOnly before (((q :: qs).map Slot.plain).map Slot.item ++ _) = _
      rw [parametersOf_plain, parametersOf_others]
      simp

end Kinds

/-- The entries of a list give its parameters. -/
theorem parametersOf_slots (l : Signature) : parametersOf .regular [] (l.slots.map Slot.item) = l.parameters := by
  simp only [slots, List.map_append, parametersOf_plain, List.nil_append, parametersOf_slash, parametersOf_star,
    parameters, List.append_assoc]

/-! ## Reading -/

end Signature

section Reading

variable {n : Nat} {annotated : Bool} {closing : Operator} {c : Cursor} {more : List Word}

theorem slots_finds (hclosing : Ends annotated (.op closing)) (hcomma : closing ≠ .comma) {ss : List Slot}
    (hfits : ∀ s ∈ ss, s.Fits annotated) (trailing : Bool) (h : c.size < n)
    (hc : c.words = listWords ss trailing ++ opWord closing :: more) :
    (anyItems (parameterItem (exprBelow n) annotated) (.op closing) c h).Finds fun items d =>
      List.Forall₂ SameItem items (ss.map Slot.item) ∧ d.words = opWord closing :: more := by
  have hitems : List.Forall₂ (ItemOn (parameterItem (exprBelow n) annotated) (· = .op closing) SameItem)
      (ss.map Slot.words) (ss.map Slot.item) := by
    simp only [List.forall₂_map_left_iff, List.forall₂_map_right_iff, List.forall₂_same]
    exact fun s hs => s.itemOn hclosing (hfits s hs) n
  have hne : TokenKind.op closing ≠ .op .comma := fun heq => hcomma (TokenKind.op.inj heq)
  cases trailing with
  | false =>
    have hwords : listWords ss false = commaBetween (ss.map Slot.words) := by cases ss <;> rfl
    rw [hwords] at hc
    exact anyItems_finds hne hitems c h hc
  | true =>
    cases ss with
    | nil => exact anyItems_finds hne hitems c h hc
    | cons s ss =>
      rw [listWords, List.append_assoc] at hc
      have hrow : Row _ _ SameItem (opWord .comma) _ _ := row_of_items (Or.inl rfl) hitems
      exact hrow.anyItems_ends c h
        (listEnds_comma _ (decide_eq_true rfl) more) hc

/-- A list is read as its parameters, before what closes it. -/
theorem Signature.finds (l : Signature) (hclosing : Ends annotated (.op closing)) (hcomma : closing ≠ .comma)
    (hfits : ∀ s ∈ l.slots, s.Fits annotated) (trailing : Bool) (h : c.size < n)
    (hc : c.words = l.words trailing ++ opWord closing :: more) :
    (Reading.parameters (exprBelow n) (.op closing) annotated c h).Finds fun ps d =>
      Expr.bareParameters ps = Expr.bareParameters l.parameters ∧ d.words = opWord closing :: more := by
  apply MayRead.finds_bind (slots_finds hclosing hcomma hfits trailing h hc)
  rintro items d _ ⟨hitems, hd⟩
  refine finds_ok ⟨?_, hd⟩
  rw [← l.parametersOf_slots]
  exact bareParameters_of_sameItems hitems .regular rfl

/-! ## Functions -/

theorem Signature.readerOf_def (l : Signature) (name : String) (trailing : Bool) :
    ReaderOf .kwDef ((.name, name) :: (inParentheses (l.words trailing) ++ passWords)) fun r =>
      r.Finds fun s d => (∃ p q ps, s = .functionDef p name [] ps none [.word q .kwPass] false ∧
        Expr.bareParameters ps = Expr.bareParameters l.parameters) ∧ d.words = [] := by
  intro n sub t c h ht hc
  refine ⟨functionDef sub t.span.start [] false c h, by rw [compound?, ht], ?_⟩
  rw [inParentheses_append] at hc
  apply Read.finds_bind (Cursor.expectName_finds hc)
  rintro _ c1 h1 ⟨rfl, hc1⟩
  apply Read.finds_bind (Read.finds_since (Cursor.expect_finds hc1) h1)
  rintro _ c2 h2 ⟨-, hc2⟩
  have hends : Ends true (.op .closeParen) := ⟨rfl, by decide, fun _ => by decide⟩
  have hlist := l.finds hends (by decide) (fun _ _ => Or.inl rfl) trailing c2.size_below hc2
  apply Read.finds_bind (MayRead.finds_since hlist h2)
  rintro ps c3 h3 ⟨hps, hc3⟩
  apply Read.finds_bind (Read.finds_since (Cursor.expect_finds hc3) h3)
  rintro _ c4 h4 ⟨-, hc4⟩
  have hreturns : (singleAfter (.op .arrow) .named c4).Finds fun e d => e = none ∧ d.words = passWords := by
    rw [singleAfter, exprAfter, Cursor.accept?_eq_none hc4 (by decide)]
    exact finds_ok ⟨rfl, hc4⟩
  apply Read.finds_bind (MayRead.finds_since hreturns h4)
  rintro _ c5 h5 ⟨rfl, hc5⟩
  apply Read.finds_bind (Read.finds_since (suite_pass (below_of_lt h5 h) hc5) h5)
  rintro _ d _ ⟨⟨q, rfl⟩, hd⟩
  exact finds_ok ⟨⟨_, q, ps, rfl, hps⟩, hd⟩

theorem Signature.def_read (l : Signature) (trailing : Bool) {name text : String}
    (htext : WrittenAs text (l.defWords name trailing)) : ∃ m p q ps, Module.ofText text = .ok m ∧
      m.body = [.functionDef p name [] ps none [.word q .kwPass] false] ∧
      Expr.bareParameters ps = Expr.bareParameters l.parameters := by
  obtain ⟨tokens, htokens, -⟩ := htext.tokens
  have hc := (htext.lineOf htokens).words
  rw [Signature.defWords, List.cons_append, List.cons_append, List.append_assoc] at hc
  obtain ⟨m, _, hm, hbody, p, q, ps, rfl, hps⟩ := ofText_finds_of_tokens htokens hc (l.readerOf_def name trailing)
  exact ⟨m, p, q, ps, hm, hbody, hps⟩

/-! ## Lambdas -/

theorem Signature.lambda_finds (l : Signature) (hno : ∀ s ∈ l.slots, s.hint = none) (trailing : Bool) (body : Single)
    {next : Word} (hbody : Borders body.words next) {t : Token} (ht : t.kind = .word .kwLambda) (h : c.size < n)
    (hc : c.words = l.words trailing ++ opWord .colon :: (body.words ++ next :: more)) :
    (operandAfter (exprBelow n) t c h).Finds fun x d => (∃ s ps e, x = .lambda s ps e ∧
      Expr.bareParameters ps = Expr.bareParameters l.parameters ∧ e.bare = body.value.bare) ∧ d.words = next :: more := by
  rw [operandAfter, ht]
  apply Read.finds_moved
  have hends : Ends false (.op .colon) := ⟨rfl, by decide, fun h => absurd h Bool.false_ne_true⟩
  have hlist := l.finds hends (by decide) (fun s hs => Or.inr (hno s hs)) trailing h hc
  apply MayRead.finds_bind hlist
  rintro ps c1 h1 ⟨hps, hc1⟩
  apply Read.finds_bind (Read.finds_from (Cursor.expect_finds hc1) h1)
  rintro _ c2 h2 ⟨-, hc2⟩
  apply Read.finds_bind (Read.finds_since (body.whole c2 next more hbody hc2) h2)
  rintro e d _ ⟨he, hd⟩
  exact finds_ok ⟨⟨_, ps, e, rfl, hps, he⟩, hd⟩

end Reading

theorem Signature.lambda_read (l : Signature) (hno : ∀ s ∈ l.slots, s.hint = none) (trailing : Bool) (body : Single)
    {text : String} (htext : WrittenAs (Text.trimmed text) (l.lambdaWords trailing body.words)) :
    ∃ s ps e, Expr.ofText text = .ok (.lambda s ps e) ∧
      Expr.bareParameters ps = Expr.bareParameters l.parameters ∧ e.bare = body.value.bare := by
  obtain ⟨tokens, htokens, -⟩ := htext.tokens
  have hc := (htext.lineOf htokens).words
  rw [Signature.lambdaWords, List.cons_append, List.append_assoc, List.cons_append] at hc
  have hread : (expr .least (Cursor.ofTokens tokens)).Finds fun x d => (∃ s ps e, x = .lambda s ps e ∧
      Expr.bareParameters ps = Expr.bareParameters l.parameters ∧ e.bare = body.value.bare) ∧
        d.words = [(.newline, "")] := by
    have hborders : Borders body.words (.newline, "") := ⟨rfl, by rintro ⟨⟩⟩
    exact expr_of_operand (fun n t c h ht => l.lambda_finds hno trailing body hborders (congrArg Prod.fst ht) h)
      (Nat.le_refl _) hc
  obtain ⟨_, hx, s, ps, e, rfl, hps, he⟩ := ofTokens_of_finds hread
  refine ⟨s, ps, e, ?_, hps, he⟩
  rw [Expr.ofText, htokens]
  exact hx

/-! ## Lists as text -/

/-- Entries between commas. After the last one of some entries a comma may stand. -/
def listText : List Slot → Bool → String
  | s :: ss, true => Expr.commaSeparated ((s :: ss).map Slot.text) ++ ","
  | ss, _ => Expr.commaSeparated (ss.map Slot.text)

section Text

variable {ss : List Slot} (hline : ∀ s ∈ ss, s.InLine) (trailing : Bool) {rest : List Char}

include hline

theorem items_text : List.Forall₂ Item (ss.map Slot.text) (ss.map Slot.words) := by
  simp only [List.forall₂_map_left_iff, List.forall₂_map_right_iff, List.forall₂_same]
  exact fun s hs => Slot.item_text (hline s hs)

theorem cuts_listText (hrest : Gap rest) : Cuts (listText ss trailing).toList (listWords ss trailing) rest := by
  have hitems := items_text hline
  cases trailing with
  | false => cases ss <;> exact cuts_commaSeparated hitems hrest
  | true =>
    cases ss with
    | nil => exact Cuts.nil rest
    | cons s ss =>
      rw [listText, String.toList_append]
      exact (cuts_commaSeparated hitems (gap_cons (by decide) _)).append (cuts_single (o := .comma) (by decide) rest)

theorem head?_listText (hrest : ∀ d ∈ rest.head?, Lexeme.isLineBlank d = false) :
    ∀ d ∈ ((listText ss trailing).toList ++ rest).head?, Lexeme.isLineBlank d = false := by
  cases ss with
  | nil => cases trailing <;> exact hrest
  | cons s ss =>
    obtain ⟨c, cs, hchars, hc⟩ := first_commaSeparated (List.map_cons (f := Slot.text)) (items_text hline)
    have hfirst : ∃ cs', (listText (s :: ss) trailing).toList = c :: cs' := by
      cases trailing with
      | false => exact ⟨cs, hchars⟩
      | true => exact ⟨cs ++ [','], by rw [listText, String.toList_append, hchars]; rfl⟩
    obtain ⟨cs', hchars'⟩ := hfirst
    rw [hchars']
    intro d hd
    obtain rfl := Option.some.inj hd
    exact hc

end Text

namespace Signature

/-- The shortest function with the parameters. -/
def defText (l : Signature) (name : String) (trailing : Bool) : String :=
  "def " ++ name ++ "(" ++ listText l.slots trailing ++ "): pass"

def lambdaText (l : Signature) (trailing : Bool) (body : Single) : String :=
  "lambda " ++ listText l.slots trailing ++ ": " ++ body.inner

variable {l : Signature} (hline : ∀ s ∈ l.slots, s.InLine) (trailing : Bool)

include hline

theorem defText_written {name : String} (hname : IsName name) :
    WrittenAs (l.defText name trailing) (l.defWords name trailing) := by
  have htext : (l.defText name trailing).toList = (Keyword.kwDef.spelling.toList ++ [' ']) ++ (name.toList ++
      ('(' :: ((listText l.slots trailing).toList ++ [')']) ++ ": pass".toList)) := by
    simp [defText, Keyword.spelling]
  have hlist := Cuts.parens (cuts_listText hline trailing (gap_cons (by decide) (": pass".toList ++ [])))
  have hname' := (cuts_name hname (Lexeme.edge_cons (by decide) _)).append (hlist.append cuts_pass)
  have hcuts := (cuts_wordBlank .kwDef (by rw [List.append_assoc]; exact hname.head? _)).append hname'
  exact writtenAs_of_cuts htext (by decide) hcuts

theorem lambdaText_written {body : Single} (hbody : Text.isInLine body.text = true) :
    WrittenAs (Text.trimmed (l.lambdaText trailing body)) (l.lambdaWords trailing body.words) := by
  obtain ⟨c, cs, hchars, hfirst, hcuts⟩ := body.cuts_inner hbody
  have hhead : ∀ d ∈ (body.inner.toList ++ []).head?, Lexeme.isLineBlank d = false := by
    rw [hchars]
    rintro d ⟨⟩
    exact hfirst
  have hcloses : Expr.Closes body.inner := by
    obtain ⟨d, hd⟩ := Option.isSome_iff_exists.mp (List.getLast?_isSome.mpr (hchars ▸ List.cons_ne_nil c cs))
    exact ⟨d, hd, Text.getLast?_trimmed body.text d hd⟩
  have htext : (l.lambdaText trailing body).toList = (Keyword.kwLambda.spelling.toList ++ [' ']) ++
      ((listText l.slots trailing).toList ++ ([':', ' '] ++ body.inner.toList)) := by
    simp [lambdaText, Keyword.spelling]
  have hend : Cuts body.inner.toList body.words [] := hcuts [] (by rintro _ ⟨⟩) (Or.inr rfl)
  have hcolon := (cuts_colonBlank hhead).append hend
  have hlist := (cuts_listText hline trailing (gap_cons (by decide) _)).append hcolon
  have hblank : ∀ d ∈ ((listText l.slots trailing).toList ++ ([':', ' '] ++ body.inner.toList) ++ []).head?,
      Lexeme.isLineBlank d = false := by
    rw [List.append_assoc]
    exact head?_listText hline trailing (of_head? rfl)
  have hall := (cuts_wordBlank .kwLambda hblank).append hlist
  have htrimmed : Text.trimmed (l.lambdaText trailing body) = l.lambdaText trailing body :=
    Expr.trimmed_eq htext (by decide) (Expr.Closes.append hcloses _)
  rw [htrimmed]
  exact writtenAs_of_cuts htext (by decide) hall

end Signature

/-- A parameter list is read as what it lists, in a function and, where it has no annotations, in a lambda. A list of
names and of expressions within one line has a text of its own that is read so. -/
theorem parameters_read (l : Signature) (trailing : Bool) :
    (∀ name text, WrittenAs text (l.defWords name trailing) → ∃ m p q ps, Module.ofText text = .ok m ∧
      m.body = [.functionDef p name [] ps none [.word q .kwPass] false] ∧
      Expr.bareParameters ps = Expr.bareParameters l.parameters) ∧
    ((∀ s ∈ l.slots, s.hint = none) → ∀ (body : Single) (text : String),
      WrittenAs (Text.trimmed text) (l.lambdaWords trailing body.words) →
        ∃ s ps e, Expr.ofText text = .ok (.lambda s ps e) ∧
          Expr.bareParameters ps = Expr.bareParameters l.parameters ∧ e.bare = body.value.bare) ∧
    ((∀ s ∈ l.slots, s.InLine) →
      (∀ name, IsName name → WrittenAs (l.defText name trailing) (l.defWords name trailing)) ∧
      ∀ body : Single, Text.isInLine body.text = true →
        WrittenAs (Text.trimmed (l.lambdaText trailing body)) (l.lambdaWords trailing body.words)) := by
  refine ⟨fun _ _ htext => l.def_read trailing htext, fun hno body _ htext => l.lambda_read hno trailing body htext, ?_⟩
  intro hline
  exact ⟨fun _ hname => Signature.defText_written hline trailing hname,
    fun _ hbody => Signature.lambdaText_written hline trailing hbody⟩

/-- Parameters of all kinds, with annotations and defaults, some of which hold colons of their own. -/
theorem parameters_read_mixed : (∃ l : Signature, l.parameters.map (fun p => (p.kind, p.name, p.hint.isSome)) =
      [(.positionalOnly, "a", true), (.positionalOnly, "b", false), (.regular, "c", false), (.keywordOnly, "d", true),
        (.variadicKeywords, "e", false)] ∧
      ∃ m p q ps, Module.ofText "def f(a: int, b, /, c = lambda x=1: x, *, d: 'D' = (y := 2), **e,): pass" = .ok m ∧
        m.body = [.functionDef p "f" [] ps none [.word q .kwPass] false] ∧
        Expr.bareParameters ps = Expr.bareParameters l.parameters) ∧
    ∃ l : Signature, l.parameters.map (fun p => (p.kind, p.name, p.standard.isSome)) =
      [(.positionalOnly, "b", false), (.regular, "c", true), (.variadic, "d", false), (.keywordOnly, "e", false)] ∧
      ∃ s ps e, Expr.ofText "lambda b, /, c = lambda x=1: x, *d, e: c" = .ok (.lambda s ps e) ∧
        Expr.bareParameters ps = Expr.bareParameters l.parameters := by
  obtain ⟨ha, hb, hc, hd, he, hf⟩ :
      IsName "a" ∧ IsName "b" ∧ IsName "c" ∧ IsName "d" ∧ IsName "e" ∧ IsName "f" := by
    refine ⟨?_, ?_, ?_, ?_, ?_, ?_⟩ <;> exact isName_singleton rfl (by decide) (by decide)
  obtain ⟨int, hint, hintLine⟩ :=
    exists_listed "int" (by decide +kernel) (by decide +kernel) (by decide +kernel) (by decide +kernel)
  obtain ⟨quoted, hquoted, hquotedLine⟩ :=
    exists_listed "'D'" (by decide +kernel) (by decide +kernel) (by decide +kernel) (by decide +kernel)
  obtain ⟨inner, hinner, hinnerLine⟩ :=
    exists_listed "lambda x=1: x" (by decide +kernel) (by decide +kernel) (by decide +kernel) (by decide +kernel)
  obtain ⟨two, htwo, htwoLine⟩ :=
    exists_listed "(y := 2)" (by decide +kernel) (by decide +kernel) (by decide +kernel) (by decide +kernel)
  obtain ⟨body, hbody, hbodyLine⟩ :=
    exists_listed "c" (by decide +kernel) (by decide +kernel) (by decide +kernel) (by decide +kernel)
  constructor
  · let l : Signature := ⟨[⟨⟨"a", some int⟩, none⟩, ⟨⟨"b", none⟩, none⟩], [⟨⟨"c", none⟩, some inner⟩], none,
      [⟨⟨"d", some quoted⟩, some two⟩], some ⟨"e", none⟩⟩
    have hline : ∀ s ∈ l.slots, s.InLine := by
      simp [l, Signature.slots, Signature.slash, Signature.star, Slot.InLine, Hinted.InLine, ha, hb, hc, hd, he,
        hintLine, hinnerLine, hquotedLine, htwoLine]
    have htext : l.defText "f" true = "def f(a: int, b, /, c = lambda x=1: x, *, d: 'D' = (y := 2), **e,): pass" := by
      simp only [l, Signature.defText, Signature.slots, Signature.slash, Signature.star, Option.toList, List.map,
        List.cons_append, List.nil_append, listText, Slot.text, Hinted.text, markedText, Single.inner, hint,
        hquoted, hinner, htwo]
      decide +kernel
    obtain ⟨hread, -, hwritten⟩ := parameters_read l true
    exact ⟨l, rfl, hread "f" _ (htext ▸ (hwritten hline).1 "f" hf)⟩
  · let l : Signature := ⟨[⟨⟨"b", none⟩, none⟩], [⟨⟨"c", none⟩, some inner⟩], some ⟨"d", none⟩,
      [⟨⟨"e", none⟩, none⟩], none⟩
    have hline : ∀ s ∈ l.slots, s.InLine := by
      simp [l, Signature.slots, Signature.slash, Signature.star, Slot.InLine, Hinted.InLine, hb, hc, hd, he, hinnerLine]
    have htext : l.lambdaText false body.toSingle = "lambda b, /, c = lambda x=1: x, *d, e: c" := by
      simp only [l, Signature.lambdaText, Signature.slots, Signature.slash, Signature.star, Option.toList, List.map,
        List.cons_append, List.nil_append, listText, Slot.text, Hinted.text, markedText, Single.inner,
        hinner, hbody]
      decide +kernel
    have hno : ∀ s ∈ l.slots, s.hint = none := by
      simp [l, Signature.slots, Signature.slash, Signature.star, Slot.hint]
    obtain ⟨-, hread, hwritten⟩ := parameters_read l false
    obtain ⟨s, ps, e, hread, hps, -⟩ :=
      hread hno body.toSingle _ (htext ▸ (hwritten hline).2 body.toSingle hbodyLine.line)
    exact ⟨l, rfl, s, ps, e, hread, hps⟩

end TypeWatch.Reading
