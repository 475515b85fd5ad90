import TypeWatch.Proofs.Lexeme.Joined
import TypeWatch.Proofs.Token.Spelling

/-! # Texts within a line

A text that is cut into tokens and blanks of one line is cut into the same ones where a comma, a closing parenthesis
or a blank follows it (`InLine.cuts`), if what follows does not close quotes that are open in it. -/
namespace TypeWatch
set_option autoImplicit false

namespace Lexeme

/-! ## What parts tokens -/

/-- Characters that belong to no token that begins before them. -/
def parting : List Char := [')', ',', ']', '\x7d', ':', '[', '(', ' ', '\t', '\x0c']

/-- Whether a text begins with a character that parts tokens, or is empty. -/
def Parted (rest : List Char) : Prop := ∀ d ∈ rest.head?, d ∈ parting

theorem Parted.of {p : Char → Prop} {rest : List Char} (h : Parted rest) (hp : ∀ d ∈ parting, p d) :
    ∀ d ∈ rest.head?, p d := fun d hd => hp d (h d hd)

section Lengths

variable {cs rest : List Char}

/-- A run ends before a character that does not go on with it, or earlier. -/
theorem runLength_append_of_head {p : Char → Bool} (h : ∀ d ∈ rest.head?, p d = false) :
    runLength p (cs ++ rest) = runLength p cs := by
  induction cs with
  | nil =>
    cases rest with
    | nil => rfl
    | cons d rest => exact runLength_cons_of_neg (h d rfl) rest
  | cons c cs ih =>
    cases hc : p c with
    | true => rw [List.cons_append, runLength_cons_of_pos hc, runLength_cons_of_pos hc, ih]
    | false => rw [List.cons_append, runLength_cons_of_neg hc, runLength_cons_of_neg hc]

theorem literalPrefix?_parted (h : Parted rest) : literalPrefix? (cs ++ rest) = literalPrefix? cs := by
  have hrun : runLength isPrefixLetter (cs ++ rest) = runLength isPrefixLetter cs :=
    runLength_append_of_head (h.of (forall_of_all (by decide)))
  have hle : runLength isPrefixLetter cs ≤ cs.length := (List.takeWhile_prefix _).length_le
  have hquote : ∀ d ∈ rest.head?, isQuote d = false := h.of (forall_of_all (by decide))
  simp only [literalPrefix?, hrun, List.drop_append_of_le_length hle]
  cases hdrop : cs.drop (runLength isPrefixLetter cs) with
  | cons d ds => rfl
  | nil =>
    cases rest with
    | nil => rfl
    | cons d rest => simp [hquote d rfl]

theorem leading?_parted {c : Char} (h : Parted rest) :
    Operator.leading? (c :: cs ++ rest) = Operator.leading? (c :: cs) := by
  unfold Operator.leading?
  congr 1
  funext o
  refine Bool.eq_iff_iff.mpr ?_
  rw [List.isPrefixOf_iff_prefix, List.isPrefixOf_iff_prefix]
  refine prefix_append_iff fun d hd hprefix => ?_
  obtain ⟨t, ht⟩ := hprefix
  have hno : ∀ d ∈ parting, d ∉ extenders := forall_of_all (by decide)
  refine hno d (h d hd) (mem_extenders_of_tail o d ?_)
  rw [← ht]
  simp

/-! ## String literals -/

theorem take_two_parted {q : Char} (hq : ∀ d ∈ rest.head?, d ≠ q) :
    ((cs ++ rest).take 2 == [q, q]) = (cs.take 2 == [q, q]) := by
  rw [take_two_eq, take_two_eq]
  refine Bool.eq_iff_iff.mpr ?_
  rw [List.isPrefixOf_iff_prefix, List.isPrefixOf_iff_prefix]
  refine prefix_append_iff fun d hd hprefix => hq d hd ?_
  have hmem : d ∈ [q, q] := hprefix.subset (List.mem_append_right _ List.mem_cons_self)
  simpa using hmem

theorem longBodyLength?_of_not_mem {q : Char} (hq : q ∉ cs) : longBodyLength? q cs = none := by
  induction cs using longBodyLength?.induct (q := q) with
  | case1 c cs ih =>
    rw [longBodyLength?, ih fun hmem => hq (by simp [hmem])]
    rfl
  | case2 c cs _ hclose =>
    have hc : c = q := beq_iff_eq.mp (Bool.and_eq_true_iff.mp hclose).1
    exact absurd (hc ▸ List.mem_cons_self) hq
  | case3 c cs hesc hclose hback => rw [longBodyLength?.eq_2 q c cs hesc, if_neg hclose, if_pos hback]
  | case4 c cs hesc hclose hback ih =>
    rw [longBodyLength?.eq_2 q c cs hesc, if_neg hclose, if_neg hback, ih fun hmem => hq (List.mem_cons_of_mem c hmem)]
    rfl
  | case5 => rw [longBodyLength?]

/-- Three quotes are not closed by text without a quote. -/
theorem longBodyLength?_append_of_not_mem {q : Char} (hback : q ≠ '\\') (hq : q ∉ rest)
    (h : longBodyLength? q cs = none) : longBodyLength? q (cs ++ rest) = none := by
  have hhead : ∀ d ∈ rest.head?, d ≠ q := fun d hd heq => hq (heq ▸ List.mem_of_head? hd)
  induction cs using longBodyLength?.induct (q := q) with
  | case1 c cs ih =>
    rw [longBodyLength?, Option.map_eq_none_iff] at h
    rw [List.cons_append, List.cons_append, longBodyLength?, ih h]
    rfl
  | case2 c cs hesc hclose =>
    rw [longBodyLength?.eq_2 q c cs hesc, if_pos hclose] at h
    cases h
  | case3 c cs hesc hclose hslash =>
    obtain rfl : c = '\\' := beq_iff_eq.mp hslash
    cases cs with
    | nil =>
      refine longBodyLength?_of_not_mem fun hmem => ?_
      rcases List.mem_cons.mp hmem with heq | hmem
      · exact hback heq
      · exact hq hmem
    | cons d ds => exact absurd rfl (hesc d ds rfl)
  | case4 c cs hesc hclose hslash ih =>
    rw [longBodyLength?.eq_2 q c cs hesc, if_neg hclose, if_neg hslash, Option.map_eq_none_iff] at h
    rw [← take_two_parted hhead] at hclose
    rw [List.cons_append, longBodyLength?.eq_2, if_neg hclose, if_neg hslash, ih h]
    · rfl
    · exact fun _ _ hc _ => hslash (beq_iff_eq.mpr hc)
  | case5 => exact longBodyLength?_of_not_mem hq

theorem quotedLength?_parted {q : Char} (hq : isQuote q = true) (hrest : Parted rest)
    (hclosed : Closes (q :: cs) ∨ q ∉ rest) {n : Nat} (h : quotedLength? (q :: cs) = some n) :
    quotedLength? (q :: cs ++ rest) = some n := by
  have hhead : ∀ d ∈ rest.head?, d ≠ q := by
    have hquote : ∀ d ∈ rest.head?, isQuote d = false := hrest.of (forall_of_all (by decide))
    rintro d hd rfl
    cases hq.symm.trans (hquote d hd)
  rw [quotedLength?] at h
  rw [List.cons_append, quotedLength?, take_two_parted hhead]
  by_cases htriple : (cs.take 2 == [q, q]) = true
  · have htwo : 2 ≤ cs.length := by
      have hlength := congrArg List.length (beq_iff_eq.mp htriple)
      rw [List.length_take, List.length_cons, List.length_singleton] at hlength
      omega
    rw [if_pos htriple] at h ⊢
    rw [List.drop_append_of_le_length htwo]
    cases hlong : longBodyLength? q (cs.drop 2) with
    | some m =>
      rw [hlong] at h
      rw [longBodyLength?_append rest hlong]
      exact h
    | none =>
      rw [hlong] at h
      have hno : q ∉ rest := hclosed.resolve_left fun hcloses => by
        have hsome := hcloses q cs rfl (beq_iff_eq.mp htriple)
        rw [hlong] at hsome
        cases hsome
      rw [longBodyLength?_append_of_not_mem (ne_lineBreak_of_isQuote hq).2.2 hno hlong]
      exact shortLength?_append rest hq h
  · rw [if_neg htriple] at h ⊢
    exact shortLength?_append rest hq h

/-! ## Pieces -/

theorem leading_parted_blanks {c : Char} (hlast : ∀ d ∈ (c :: cs).getLast?, isLineBlank d = false)
    {n : Nat} (h : leading c cs = .ok (.blanks, n)) : leading c (cs ++ rest) = .ok (.blanks, n) := by
  cases leads_of_leading h with
  | blanks hc =>
    obtain ⟨d, hd⟩ := Option.isSome_iff_exists.mp (List.getLast?_isSome.mpr (List.cons_ne_nil c cs))
    have hrun := runLength_append_of_mem rest (hlast d hd) (List.mem_of_getLast? hd)
    rw [List.cons_append] at hrun
    have hbreak := lineBreakLength?_of_isLineBlank hc (cs ++ rest)
    simp [leading, hbreak, hc, hrun]

theorem leading_parted_token {c : Char} {kind : TokenKind} (hrest : Parted rest)
    (hclosed : ∀ n, literalPrefix? (c :: cs) = some n → Closes ((c :: cs).drop n) ∨ ∀ d ∈ rest, isQuote d = false)
    {n : Nat} (h : leading c cs = .ok (.token kind, n)) : leading c (cs ++ rest) = .ok (.token kind, n) := by
  have hstarts := startsToken_of_leads (leads_of_leading h)
  have hletters : literalPrefix? (c :: cs ++ rest) = literalPrefix? (c :: cs) := literalPrefix?_parted hrest
  rw [List.cons_append] at hletters
  rw [leading_eq hstarts] at h
  rw [leading_eq hstarts, hletters]
  cases hliteral : literalPrefix? (c :: cs) with
  | some letters =>
    obtain ⟨-, q, ds, hdrop, hq⟩ := literalPrefix?_parts hliteral
    have hle : letters ≤ (c :: cs).length := by
      by_contra hlt
      rw [List.drop_eq_nil_of_le (Nat.le_of_not_le hlt)] at hdrop
      exact absurd hdrop nofun
    rw [hliteral] at h
    dsimp only at h ⊢
    rw [← List.cons_append, List.drop_append_of_le_length hle, List.take_append_of_le_length hle, hdrop]
    have hopen := hclosed letters hliteral
    rw [hdrop] at h hopen
    cases hquoted : quotedLength? (q :: ds) with
    | none =>
      rw [hquoted] at h
      cases h
    | some m =>
      have hno : Closes (q :: ds) ∨ q ∉ rest := hopen.imp_right fun hall hmem => by
        cases hq.symm.trans (hall q hmem)
      rw [hquoted] at h
      rw [quotedLength?_parted hq hrest hno hquoted]
      exact h
  | none =>
    have hquiet : Quiet rest := hrest.of (forall_of_all (by decide))
    have hnumber : numberLength? (c :: (cs ++ rest)) = numberLength? (c :: cs) := by
      have hsame : numberLength? (c :: cs ++ rest) = numberLength? (c :: cs ++ []) :=
        numberLength?_quiet hquiet (show Quiet [] from nofun)
      rwa [List.append_nil] at hsame
    have hrun : runLength Text.continuesName (cs ++ rest) = runLength Text.continuesName cs :=
      runLength_append_of_head (hrest.of (forall_of_all (by decide)))
    have hword : (c :: (cs ++ rest)).take (1 + runLength Text.continuesName cs) =
        (c :: cs).take (1 + runLength Text.continuesName cs) := by
      have hle : runLength Text.continuesName cs ≤ cs.length := (List.takeWhile_prefix _).length_le
      rw [← List.cons_append, List.take_append_of_le_length (by rw [List.length_cons]; omega)]
    have hoperator : Operator.leading? (c :: (cs ++ rest)) = Operator.leading? (c :: cs) := leading?_parted hrest
    simpa only [hliteral, hnumber, hrun, hword, hoperator] using h

end Lengths

end Lexeme

namespace Piece

open Lexeme (Parted)

/-- A text within a line is cut into its pieces also where tokens are parted from it. -/
theorem split_parted {s t : List Char} (ht : Parted t) (hwhole : (split s).2 = none)
    (hline : ∀ p ∈ (split s).1, p.isInLine = true) (hlast : ∀ d ∈ s.getLast?, Lexeme.isLineBlank d = false)
    (hquotes : QuotesClosed (split s).1 ∨ ∀ d ∈ t, Lexeme.isQuote d = false) :
    split (s ++ t) = ((split s).1 ++ (split t).1, (split t).2) := by
  induction s using split.induct with
  | case1 => simp only [split, List.nil_append]
  | case2 c cs fault h =>
    rw [split, h] at hwhole
    cases hwhole
  | case3 c cs lexeme n h _ _ _ ih =>
    have hclosed : ∀ k, Lexeme.literalPrefix? (c :: cs) = some k →
        Lexeme.Closes ((c :: cs).drop k) ∨ ∀ d ∈ t, Lexeme.isQuote d = false :=
      fun k hk => hquotes.imp_left fun hclosed => closes_of_split hwhole hclosed hk
    have hle : n - 1 ≤ cs.length := Nat.sub_le_of_le_add (Lexeme.leading_le h)
    rw [split_cons h] at hwhole hline hquotes ⊢
    have hfirst := hline _ List.mem_cons_self
    have hjoined : Lexeme.leading c (cs ++ t) = .ok (lexeme, n) := by
      cases lexeme with
      | token kind => exact Lexeme.leading_parted_token ht hclosed h
      | blanks => exact Lexeme.leading_parted_blanks hlast h
      | _ => cases hfirst
    have hdrop : ∀ d ∈ (cs.drop (n - 1)).getLast?, Lexeme.isLineBlank d = false := by
      intro d hd
      refine hlast d ?_
      rw [← List.take_append_drop (n - 1) cs, List.getLast?_cons, List.getLast?_append, hd]
      rfl
    rw [List.cons_append, split_cons hjoined, List.drop_append_of_le_length hle, List.take_append_of_le_length hle,
      ih hwhole (fun p hp => hline p (List.mem_cons_of_mem _ hp)) hdrop (hquotes.imp_left List.IsChain.tail)]
    rfl

end Piece

/-! ## Lines -/

namespace Text

/-- The white space at the two ends of a text. -/
def blanksAround (text : String) : List Char :=
  text.toList.takeWhile isBlank ++ (trimStart text.toList).reverse.takeWhile isBlank

/-- Whether a text is part of one line: tokens and the blanks of a line, and nothing else. -/
def isInLine (text : String) : Bool :=
  (Piece.split (trimmed text).toList).1.all Piece.isInLine && (blanksAround text).all Lexeme.isLineBlank

/-- Whether no three quotes are left open in a text. -/
def closesQuotes (text : String) : Prop := Piece.QuotesClosed (Piece.split (trimmed text).toList).1

instance (text : String) : Decidable (closesQuotes text) :=
  inferInstanceAs (Decidable (Piece.QuotesClosed (Piece.split (trimmed text).toList).1))

theorem exists_trimmed (text : String) : ∃ before after, text.toList = before ++ ((trimmed text).toList ++ after) ∧
    blanksAround text = before ++ after.reverse := by
  refine ⟨text.toList.takeWhile isBlank, ((trimStart text.toList).reverse.takeWhile isBlank).reverse, ?_, ?_⟩
  · rw [trimmed, String.toList_ofList, trim, trimEnd, ← List.reverse_append, List.takeWhile_append_dropWhile,
      List.reverse_reverse, trimStart, List.takeWhile_append_dropWhile]
  · rw [List.reverse_reverse, blanksAround]

theorem isBlank_of_head_dropWhile {cs : List Char} : ∀ d ∈ (cs.dropWhile isBlank).head?, isBlank d = false := by
  intro d hd
  have h := List.head?_dropWhile_not isBlank cs
  rw [Option.mem_def.mp hd] at h
  simpa using h

theorem head?_trimmed (text : String) : ∀ d ∈ (trimmed text).toList.head?, isBlank d = false := by
  intro d hd
  have hprefix : (trimmed text).toList <+: trimStart text.toList := by
    rw [trimmed, String.toList_ofList, trim, trimEnd, ← List.reverse_suffix, List.reverse_reverse]
    exact List.dropWhile_suffix isBlank
  obtain ⟨t, ht⟩ := hprefix
  refine isBlank_of_head_dropWhile d (show d ∈ (text.toList.dropWhile isBlank).head? from ?_)
  rw [← trimStart, ← ht, List.head?_append, Option.mem_def.mp hd]
  rfl

theorem getLast?_trimmed (text : String) : ∀ d ∈ (trimmed text).toList.getLast?, isBlank d = false := by
  intro d hd
  rw [trimmed, String.toList_ofList, trim, trimEnd, List.getLast?_reverse] at hd
  exact isBlank_of_head_dropWhile d hd

end Text

/-- The words that a text is cut into on one line, wherever a comma or a closing parenthesis follows. -/
structure LineWords (text : String) (ws : List Word) : Prop where
  noLayout : ∀ w ∈ ws, w.1.isLayout = false
  cuts {d : Char} (rest : List Char) : d ∈ [')', ','] →
    (Text.closesQuotes text ∨ ∀ e ∈ rest, Lexeme.isQuote e = false) → Cuts text.toList ws (d :: rest)
  sign {c : Char} : c ∈ text.toList.head? → c = '=' ∨ c = '*' →
    ∃ o w rest, ws = (.op o, w) :: rest ∧ o.symbol.head? = some c
  operator {o : Operator} {w : String} {rest : List Word} : ws = (.op o, w) :: rest →
    (Text.trimmed text).toList.head? = o.symbol.head?

theorem isBlank_of_isLineBlank {c : Char} (hc : Lexeme.isLineBlank c = true) : Text.isBlank c = true :=
  Lexeme.of_isLineBlank (p := fun c => Text.isBlank c = true) (Lexeme.forall_of_all (by decide)) hc

theorem head?_of_leading? {c : Char} {cs : List Char} {o : Operator} (h : Operator.leading? (c :: cs) = some o) :
    o.symbol.head? = some c := by
  have htake := Lexeme.take_of_leading? h
  obtain ⟨d, ds, hsymbol⟩ := List.exists_cons_of_ne_nil (Lexeme.symbol_chars o).1
  rw [hsymbol, List.length_cons, List.take_succ_cons] at htake
  rw [hsymbol, (List.cons.inj htake).1]
  rfl

theorem leading?_of_leads {text : List Char} {o : Operator} {n : Nat} (h : Lexeme.Leads text (.token (.op o)) n) :
    Operator.leading? text = some o := by
  generalize hlexeme : Lexeme.token (.op o) = lexeme at h
  cases h with
  | operator ho =>
    cases hlexeme
    exact ho
  | literal =>
    replace hlexeme := Lexeme.token.inj hlexeme
    unfold Lexeme.literalKind at hlexeme
    split at hlexeme
    · cases hlexeme
    · split at hlexeme <;> cases hlexeme
  | word =>
    replace hlexeme := Lexeme.token.inj hlexeme
    unfold Lexeme.wordKind at hlexeme
    split at hlexeme <;> cases hlexeme
  | _ => cases hlexeme

/-- A text that begins with a sign begins with an operator. -/
theorem operator_of_sign {c : Char} {cs : List Char} (hc : c = '=' ∨ c = '*') {lexeme : Lexeme} {n : Nat}
    (h : Lexeme.leading c cs = .ok (lexeme, n)) : ∃ o : Operator, lexeme = .token (.op o) ∧ o.symbol.head? = some c := by
  have hstarts : Lexeme.startsToken c = true := by rcases hc with rfl | rfl <;> rfl
  have hprefix : Lexeme.literalPrefix? (c :: cs) = none := by
    rcases hc with rfl | rfl <;> exact Lexeme.literalPrefix?_cons_eq_none cs (by decide) (by decide)
  have hnumber : Lexeme.numberLength? (c :: cs) = none := by
    rcases hc with rfl | rfl <;> exact Lexeme.numberLength?_eq_none (by decide) nofun
  have hname : Text.opensName c = false := by rcases hc with rfl | rfl <;> decide
  rw [Lexeme.leading_eq hstarts, hprefix, hnumber] at h
  simp only [hname, Bool.false_eq_true, if_false] at h
  split at h
  · rename_i o ho
    exact ⟨o, (Prod.mk.inj (Except.ok.inj h)).1.symm, head?_of_leading? ho⟩
  · cases h

section Lines

variable {text : String} {tokens : List Token}

/-- The pieces of a text within a line are the whole of it. -/
theorem pieces_of_line (hline : Text.isInLine text = true) (htokens : tokenize (Text.trimmed text) = .ok tokens) :
    (Piece.split (Text.trimmed text).toList).2 = none ∧
      (∀ p ∈ (Piece.split (Text.trimmed text).toList).1, p.isInLine = true) ∧
      ∀ c ∈ Text.blanksAround text, Lexeme.isLineBlank c = true := by
  obtain ⟨hpieces, hblanks⟩ := Bool.and_eq_true_iff.mp hline
  exact ⟨(Layout.run_proper (Piece.wellFormed_split _) htokens).1, List.all_eq_true.mp hpieces,
    List.all_eq_true.mp hblanks⟩

/-- The first piece of a text without white space at its ends is a token. -/
theorem startsToken_of_line {c : Char} {cs : List Char} (hc : Text.isBlank c = false) {lexeme : Lexeme} {n : Nat}
    (h : Lexeme.leading c cs = .ok (lexeme, n)) (hline : (⟨lexeme, []⟩ : Piece).isInLine = true) :
    Lexeme.startsToken c = true := by
  cases lexeme with
  | token kind => exact Lexeme.startsToken_of_leads (Lexeme.leads_of_leading h)
  | blanks =>
    cases Lexeme.leads_of_leading h with
    | blanks hblank => cases hc.symm.trans (isBlank_of_isLineBlank hblank)
  | _ => cases hline

/-- The words of a text within a line. -/
def wordsOf (text : String) : List Word := (Piece.split (Text.trimmed text).toList).1.filterMap Piece.word?

/-- What holds of the pieces of a text within a line that is not empty. -/
structure PiecesOf (text : String) (c : Char) (cs : List Char) : Prop where
  trimmed : (Text.trimmed text).toList = c :: cs
  starts : Lexeme.startsToken c = true
  leading : ∃ lexeme n, Lexeme.leading c cs = .ok (lexeme, n)
  cuts {t : List Char} : Lexeme.Parted t → (Text.closesQuotes text ∨ ∀ d ∈ t, Lexeme.isQuote d = false) →
    Cuts (c :: cs) (wordsOf text) t
  blanks : ∀ e ∈ Text.blanksAround text, Lexeme.isLineBlank e = true

theorem exists_pieces (hline : Text.isInLine text = true) (htokens : tokenize (Text.trimmed text) = .ok tokens)
    (hne : (Text.trimmed text).toList ≠ []) : ∃ c cs, PiecesOf text c cs := by
  obtain ⟨hwhole, hpieces, hblanks⟩ := pieces_of_line hline htokens
  obtain ⟨c, cs, htrimmed⟩ := List.exists_cons_of_ne_nil hne
  obtain ⟨lexeme, n, hleading⟩ : ∃ lexeme n, Lexeme.leading c cs = .ok (lexeme, n) := by
    rw [htrimmed, Piece.split] at hwhole
    cases h : Lexeme.leading c cs with
    | error fault =>
      rw [h] at hwhole
      cases hwhole
    | ok first => exact ⟨first.1, first.2, rfl⟩
  have hfirst := hpieces ⟨lexeme, c :: cs.take (n - 1)⟩ (by
    rw [htrimmed, Piece.split_cons hleading]
    exact List.mem_cons_self)
  have hstarts := startsToken_of_line (Text.head?_trimmed text c (by rw [htrimmed]; rfl)) hleading hfirst
  have hlast : ∀ d ∈ (Text.trimmed text).toList.getLast?, Lexeme.isLineBlank d = false := by
    intro d hd
    cases hblank : Lexeme.isLineBlank d with
    | false => rfl
    | true => cases (Text.getLast?_trimmed text d hd).symm.trans (isBlank_of_isLineBlank hblank)
  refine ⟨c, cs, htrimmed, hstarts, ⟨lexeme, n, hleading⟩, fun ht hquotes => ?_, hblanks⟩
  rw [← htrimmed]
  exact ⟨_, Piece.split_parted ht hwhole hpieces hlast hquotes, rfl, hpieces⟩

namespace PiecesOf

variable {c : Char} {cs : List Char}

/-- The words of the whole text, with the blanks at its ends. -/
theorem cuts_whole (h : PiecesOf text c cs) {d : Char} {rest : List Char} (hd : d ∈ [')', ','])
    (hquotes : Text.closesQuotes text ∨ ∀ e ∈ rest, Lexeme.isQuote e = false) :
    Cuts text.toList (wordsOf text) (d :: rest) := by
  obtain ⟨before, after, htext, haround⟩ := Text.exists_trimmed text
  have hblanks : (∀ e ∈ before, Lexeme.isLineBlank e = true) ∧ ∀ e ∈ after, Lexeme.isLineBlank e = true := by
    have hall := h.blanks
    rw [haround] at hall
    exact ⟨fun e he => hall e (List.mem_append_left _ he),
      fun e he => hall e (List.mem_append_right _ (List.mem_reverse.mpr he))⟩
  have hbefore : Cuts before [] (c :: cs ++ after ++ d :: rest) := by
    refine Cuts.blanks hblanks.1 fun e he => ?_
    obtain rfl := Option.some.inj he
    exact Lexeme.isLineBlank_of_startsToken h.starts
  have hafter : Cuts after [] (d :: rest) := by
    refine Cuts.blanks hblanks.2 fun e he => ?_
    obtain rfl := Option.some.inj he
    exact Lexeme.forall_of_all (p := fun d => Lexeme.isLineBlank d = false) (by decide) d hd
  have hparted : Lexeme.Parted (after ++ d :: rest) := by
    intro e he
    cases after with
    | nil =>
      obtain rfl := Option.some.inj he
      exact Lexeme.forall_of_all (p := fun d => d ∈ Lexeme.parting) (by decide) d hd
    | cons f after =>
      obtain rfl := Option.some.inj he
      exact Lexeme.of_isLineBlank (p := fun d => d ∈ Lexeme.parting) (Lexeme.forall_of_all (by decide))
        (hblanks.2 f List.mem_cons_self)
  have hmiddle := h.cuts hparted (hquotes.imp_right fun hno e he => ?_)
  · have hcuts := hbefore.append (hmiddle.append hafter)
    rwa [List.append_nil, List.nil_append, ← h.trimmed, ← htext] at hcuts
  · rcases List.mem_append.mp he with he | he
    · exact Lexeme.of_isLineBlank (p := fun d => Lexeme.isQuote d = false) (Lexeme.forall_of_all (by decide))
        (hblanks.2 e he)
    · rcases List.mem_cons.mp he with rfl | he
      · exact Lexeme.forall_of_all (p := fun d => Lexeme.isQuote d = false) (by decide) e hd
      · exact hno e he

/-- Where the text begins with a sign, its first word does. -/
theorem first_of_sign (h : PiecesOf text c cs) {d : Char} (hd : d ∈ text.toList.head?) (hsign : d = '=' ∨ d = '*') :
    ∃ o w rest, wordsOf text = (.op o, w) :: rest ∧ o.symbol.head? = some d := by
  obtain ⟨before, after, htext, haround⟩ := Text.exists_trimmed text
  rw [htext, h.trimmed] at hd
  cases before with
  | cons e before =>
    obtain rfl := Option.some.inj hd
    have hblank := h.blanks e (by rw [haround]; exact List.mem_cons_self)
    rcases hsign with rfl | rfl <;> cases hblank
  | nil =>
    obtain rfl := Option.some.inj hd
    obtain ⟨lexeme, n, hleading⟩ := h.leading
    obtain ⟨o, rfl, hsymbol⟩ := operator_of_sign hsign hleading
    obtain ⟨w, rest, hwords⟩ : ∃ w rest, wordsOf text = (.op o, w) :: rest := by
      rw [wordsOf, h.trimmed, Piece.split_cons hleading]
      exact ⟨_, _, List.filterMap_cons_some rfl⟩
    exact ⟨o, w, rest, hwords, hsymbol⟩

/-- A text whose first word is an operator begins with it. -/
theorem head?_of_operator (h : PiecesOf text c cs) {o : Operator} {w : String} {rest : List Word}
    (hwords : wordsOf text = (.op o, w) :: rest) : (Text.trimmed text).toList.head? = o.symbol.head? := by
  obtain ⟨lexeme, n, hleading⟩ := h.leading
  obtain ⟨kind, rfl⟩ := Lexeme.token_of_startsToken h.starts hleading
  rw [wordsOf, h.trimmed, Piece.split_cons hleading] at hwords
  replace hwords := (List.filterMap_cons_some (f := Piece.word?) rfl).symm.trans hwords
  obtain rfl : kind = .op o := (Prod.mk.inj (List.cons.inj hwords).1).1
  rw [h.trimmed]
  exact (head?_of_leading? (leading?_of_leads (Lexeme.leads_of_leading hleading))).symm

end PiecesOf

/-- A text within a line is tokenized as its words, and they are cut from it also where others follow. -/
theorem lineWords_of_tokenize (hline : Text.isInLine text = true) (htokens : tokenize (Text.trimmed text) = .ok tokens)
    (hne : (Text.trimmed text).toList ≠ []) : LineWords text (wordsOf text) ∧
      tokens.map Token.word = wordsOf text ++ [(.newline, ""), (.endOfInput, "")] := by
  obtain ⟨c, cs, h⟩ := exists_pieces hline htokens hne
  have hcuts : Cuts (c :: cs) (wordsOf text) [] := h.cuts nofun (Or.inr nofun)
  refine ⟨⟨hcuts.noLayout, fun rest hd hquotes => h.cuts_whole hd hquotes, fun hd hsign => h.first_of_sign hd hsign,
    fun hwords => h.head?_of_operator hwords⟩, ?_⟩
  obtain ⟨tokens', htokens', hwords⟩ := tokenize_words h.starts hcuts
  rw [← h.trimmed, String.ofList_toList, htokens] at htokens'
  obtain rfl := Except.ok.inj htokens'
  exact hwords

end Lines
end TypeWatch
