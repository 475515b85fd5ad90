import TypeWatch.Proofs.Lexeme.Numeral
import TypeWatch.Proofs.Token.Pieces

/-! # Texts side by side

A text with a line feed at its end is cut into the same pieces whatever text comes after it, if no three quotes
are left open in it (`Piece.split_append`). -/
namespace TypeWatch
set_option autoImplicit false

namespace Lexeme

/-! ## Lengths before a line feed -/

section Lengths

variable {cs : List Char} (rest : List Char)

theorem runLength_lt {p : Char → Bool} {d : Char} (hp : p d = false) (hd : d ∈ cs) : runLength p cs < cs.length := by
  have hprefix := List.takeWhile_prefix p (l := cs)
  refine Nat.lt_of_le_of_ne hprefix.length_le fun hlength => ?_
  rw [← hprefix.eq_of_length hlength] at hd
  cases hp.symm.trans (List.all_eq_true.mp List.all_takeWhile d hd)

theorem runLength_append_of_mem {p : Char → Bool} {d : Char} (hp : p d = false) (hd : d ∈ cs) :
    runLength p (cs ++ rest) = runLength p cs := by
  have hne : ¬(cs.takeWhile p).length = cs.length := Nat.ne_of_lt (runLength_lt hp hd)
  rw [runLength, runLength, List.takeWhile_append, if_neg hne]

theorem lineBreakLength?_append_feed (hfeed : '\n' ∈ cs) :
    lineBreakLength? (cs ++ rest) = lineBreakLength? cs := by
  match cs, hfeed with
  | [c], h =>
    obtain rfl := List.mem_singleton.mp h
    rfl
  | c :: d :: cs, _ =>
    by_cases hc : c = '\n'
    · subst hc
      rfl
    · by_cases hd : c = '\r' ∧ d = '\n'
      · obtain ⟨rfl, rfl⟩ := hd
        rfl
      · have hnone (ds : List Char) : lineBreakLength? (c :: d :: ds) = none := by
          unfold lineBreakLength?
          split
          · exact absurd (List.cons.inj ‹_›).1 hc
          · obtain ⟨hreturn, htail⟩ := List.cons.inj ‹_›
            exact absurd ⟨hreturn, (List.cons.inj htail).1⟩ hd
          · rfl
        rw [hnone, List.cons_append, List.cons_append, hnone]

/-- A number ends before a character with which none goes on, whatever that is. -/
theorem numberLength?_quiet {before after after' : List Char} (h : Quiet after) (h' : Quiet after') :
    numberLength? (before ++ after) = numberLength? (before ++ after') := by
  have hle : (numberLength? (before ++ after)).getD 0 ≤ before.length := by
    by_contra hlt
    rw [not_le] at hlt
    cases hn : numberLength? (before ++ after) with
    | none =>
      rw [hn] at hlt
      exact absurd hlt (Nat.not_lt_zero _)
    | some n =>
      obtain ⟨hpos, c, hc, -⟩ := numberLength?_ends hn
      have hlength := (List.getElem?_eq_some_iff.mp hc).1
      rw [hn, Option.getD_some] at hlt
      rw [List.length_append] at hlength
      obtain ⟨d, ds, rfl⟩ := List.exists_cons_of_ne_nil (List.ne_nil_of_length_pos (by omega : 0 < after.length))
      have hchars := counts_number.chars (before ++ d :: ds) d ?_
      · exact absurd (hchars.symm.trans (h d rfl)) nofun
      · rw [hn]
        refine List.mem_take_iff_getElem.mpr ⟨before.length, ?_, by simp⟩
        simp only [List.length_append, Option.getD_some]
        omega
  have hsame := counts_number.stable before after after' hle h'
  have hpos {text : List Char} {n : Nat} (h : numberLength? text = some n) : n ≠ 0 :=
    Nat.pos_iff_ne_zero.mp (numberLength?_ends h).1
  cases hlong : numberLength? (before ++ after') <;> cases hshort : numberLength? (before ++ after) <;>
    simp only [hlong, hshort, Option.getD_none, Option.getD_some] at hsame
  · rfl
  · exact absurd hsame.symm (hpos hshort)
  · exact absurd hsame (hpos hlong)
  · rw [hsame]

theorem quiet_feed (cs : List Char) : Quiet ('\n' :: cs) := fun d hd => by
  obtain rfl := Option.some.inj hd
  rfl

theorem numberLength?_append_feed (hfeed : '\n' ∈ cs) : numberLength? (cs ++ rest) = numberLength? cs := by
  obtain ⟨before, after, rfl⟩ := List.append_of_mem hfeed
  rw [List.append_assoc]
  exact numberLength?_quiet (quiet_feed _) (quiet_feed _)

theorem leading?_append_feed (hfeed : '\n' ∈ cs) : Operator.leading? (cs ++ rest) = Operator.leading? cs := by
  unfold Operator.leading?
  congr 1
  funext o
  refine Bool.eq_iff_iff.mpr ?_
  rw [List.isPrefixOf_iff_prefix, List.isPrefixOf_iff_prefix]
  refine ⟨fun h => ?_, fun h => h.trans (List.prefix_append cs rest)⟩
  rcases List.prefix_or_prefix_of_prefix h (List.prefix_append cs rest) with hshort | hlong
  · exact hshort
  · have hstarts := ((symbol_chars o).2 '\n' (hlong.subset hfeed)).1
    exact absurd hstarts nofun

theorem literalPrefix?_append_feed (hfeed : '\n' ∈ cs) : literalPrefix? (cs ++ rest) = literalPrefix? cs := by
  have hrun := runLength_append_of_mem rest (p := isPrefixLetter) (by decide) hfeed
  have hlt := runLength_lt (p := isPrefixLetter) (by decide) hfeed
  simp only [literalPrefix?, hrun, List.drop_append_of_le_length (Nat.le_of_lt hlt)]
  rw [List.head?_append_of_ne_nil _ (List.ne_nil_of_length_pos (by rw [List.length_drop]; omega))]

/-! ## String literals -/

theorem take_two_eq (q : Char) (cs : List Char) : (cs.take 2 == [q, q]) = [q, q].isPrefixOf cs := by
  match cs with
  | [] => rfl
  | [c] => simp [List.isPrefixOf]
  | c :: d :: cs => simp [List.isPrefixOf, Bool.beq_eq_decide_eq, eq_comm]

theorem take_two_append {cs : List Char} (h : 2 ≤ cs.length) : (cs ++ rest).take 2 = cs.take 2 :=
  List.take_append_of_le_length h

theorem two_le_of_longBodyLength? {q : Char} {n : Nat} (h : longBodyLength? q cs = some n) : 2 ≤ cs.length := by
  match cs, h with
  | [c], h =>
    have hnone : longBodyLength? q [c] = none := by simp [longBodyLength?]
    cases hnone.symm.trans h
  | _ :: _ :: _, _ => simp

/-- What follows the closing quotes does not matter. -/
theorem longBodyLength?_append {q : Char} {n : Nat} (h : longBodyLength? q cs = some n) :
    longBodyLength? q (cs ++ rest) = some n := by
  induction cs using longBodyLength?.induct (q := q) generalizing n with
  | case1 c cs ih =>
    rw [longBodyLength?] at h
    obtain ⟨m, hm, rfl⟩ := Option.map_eq_some_iff.mp h
    rw [List.cons_append, List.cons_append, longBodyLength?, ih hm]
    rfl
  | case2 c cs hesc hclose =>
    rw [longBodyLength?.eq_2 q c cs hesc, if_pos hclose] at h
    have hlength : (cs.take 2).length = 2 := congrArg List.length (beq_iff_eq.mp (Bool.and_eq_true_iff.mp hclose).2)
    have htwo : 2 ≤ cs.length := by
      rw [List.length_take] at hlength
      omega
    obtain ⟨d, ds, rfl⟩ := List.exists_cons_of_length_pos (Nat.lt_of_lt_of_le (by decide) htwo)
    rw [List.cons_append, longBodyLength?.eq_2, take_two_append rest htwo, if_pos hclose, h]
    exact fun _ _ hc _ => hesc d ds hc rfl
  | case3 c cs hesc hclose hback =>
    rw [longBodyLength?.eq_2 q c cs hesc, if_neg hclose, if_pos hback] at h
    cases h
  | case4 c cs hesc hclose hback ih =>
    rw [longBodyLength?.eq_2 q c cs hesc, if_neg hclose, if_neg hback] at h
    obtain ⟨m, hm, rfl⟩ := Option.map_eq_some_iff.mp h
    rw [List.cons_append, longBodyLength?.eq_2, take_two_append rest (two_le_of_longBodyLength? hm), if_neg hclose,
      if_neg hback, ih hm]
    · rfl
    · exact fun _ _ hc _ => hback (beq_iff_eq.mpr hc)
  | case5 => cases h

theorem shortBodyLength?_append {q : Char} (hq : isQuote q = true) {n : Nat} (h : shortBodyLength? q cs = some n) :
    shortBodyLength? q (cs ++ rest) = some n := by
  induction cs using shortBodyLength?.induct (q := q) generalizing n with
  | case1 c cs ih =>
    rw [shortBodyLength?] at h
    obtain ⟨m, hm, rfl⟩ := Option.map_eq_some_iff.mp h
    rw [List.cons_append, List.cons_append, shortBodyLength?, ih hm]
    rfl
  | case2 c cs hesc hclose =>
    rw [shortBodyLength?.eq_2 q c cs hesc, if_pos hclose] at h
    obtain rfl : c = q := beq_iff_eq.mp hclose
    rw [List.cons_append, shortBodyLength?_unescaped (ne_lineBreak_of_isQuote hq).2.2, if_pos hclose, h]
  | case3 c cs hesc hclose hback =>
    rw [shortBodyLength?.eq_2 q c cs hesc, if_neg hclose, if_pos hback] at h
    cases h
  | case4 c cs hesc hclose hback ih =>
    rw [shortBodyLength?.eq_2 q c cs hesc, if_neg hclose, if_neg hback] at h
    obtain ⟨m, hm, rfl⟩ := Option.map_eq_some_iff.mp h
    rw [List.cons_append, shortBodyLength?.eq_2, if_neg hclose, if_neg hback, ih hm]
    · rfl
    · exact fun _ _ hc _ => hback (by simp [hc])
  | case5 => cases h

/-- One quote and what it encloses. -/
theorem shortLength?_append {q : Char} (hq : isQuote q = true) {n : Nat}
    (h : (shortBodyLength? q cs).map (· + 1) = some n) : (shortBodyLength? q (cs ++ rest)).map (· + 1) = some n := by
  obtain ⟨m, hm, rfl⟩ := Option.map_eq_some_iff.mp h
  rw [shortBodyLength?_append rest hq hm]
  rfl

/-- Whether a text begins with three quotes that are closed, or with another number of quotes. -/
def Closes (text : List Char) : Prop :=
  ∀ q cs, text = q :: cs → cs.take 2 = [q, q] → (longBodyLength? q (cs.drop 2)).isSome

theorem quotedLength?_append {q : Char} (hq : isQuote q = true) (hfeed : '\n' ∈ cs) (hclosed : Closes (q :: cs))
    {n : Nat} (h : quotedLength? (q :: cs) = some n) : quotedLength? (q :: cs ++ rest) = some n := by
  rw [quotedLength?] at h
  rw [List.cons_append, quotedLength?]
  obtain ⟨c, cs, rfl⟩ := List.exists_cons_of_ne_nil (List.ne_nil_of_mem hfeed)
  cases cs with
  | nil =>
    obtain rfl := List.mem_singleton.mp hfeed
    have hne : q ≠ '\n' := ne_feed (p := isQuote) (by decide) hq
    rw [if_neg (by simp)] at h
    rw [List.cons_append, if_neg (by simp [Ne.symm hne])]
    exact shortLength?_append rest hq h
  | cons d cs =>
    rw [take_two_append rest (by simp)]
    by_cases htriple : ((c :: d :: cs).take 2 == [q, q]) = true
    · rw [if_pos htriple] at h ⊢
      obtain ⟨m, hm⟩ := Option.isSome_iff_exists.mp (hclosed q _ rfl (beq_iff_eq.mp htriple))
      rw [hm] at h
      rw [List.drop_append_of_le_length (by simp), longBodyLength?_append rest hm]
      exact h
    · rw [if_neg htriple] at h ⊢
      exact shortLength?_append rest hq h

end Lengths

/-! ## Pieces -/

theorem lineBreakLength?_le {cs : List Char} {n : Nat} (h : lineBreakLength? cs = some n) :
    n ≤ cs.length := by
  unfold lineBreakLength? at h
  split at h
  · cases h
    simp
  · cases h
    simp
  · exact absurd h nofun

theorem leading_le {c : Char} {cs : List Char} {lexeme : Lexeme} {n : Nat}
    (h : leading c cs = .ok (lexeme, n)) : n ≤ (c :: cs).length := by
  cases lexeme with
  | token kind =>
    obtain ⟨-, -, d, hd, -⟩ := (leading_ok h).2 kind rfl
    exact Nat.le_of_pred_lt (List.getElem?_eq_some_iff.mp hd).1
  | lineBreak =>
    cases leads_of_leading h with
    | lineBreak hn => exact lineBreakLength?_le hn
  | continuation =>
    cases leads_of_leading h with
    | continuation hn => exact Nat.succ_le_succ (lineBreakLength?_le hn)
  | blanks =>
    cases leads_of_leading h with
    | blanks => exact (List.takeWhile_prefix _).length_le
  | comment =>
    cases leads_of_leading h with
    | comment => exact (List.takeWhile_prefix _).length_le

/-- After the letters before a string literal stands a quote. -/
theorem literalPrefix?_parts {text : List Char} {letters : Nat} (h : literalPrefix? text = some letters) :
    text.take letters = text.takeWhile isPrefixLetter ∧ ∃ q ds, text.drop letters = q :: ds ∧ isQuote q = true := by
  unfold literalPrefix? at h
  dsimp only at h
  split at h
  · rename_i hquote
    obtain rfl := Option.some.inj h
    refine ⟨take_runLength _ _, ?_⟩
    rw [Bool.and_eq_true] at hquote
    cases hdrop : text.drop (runLength isPrefixLetter text) with
    | nil =>
      rw [hdrop] at hquote
      exact absurd hquote.2 nofun
    | cons q ds =>
      rw [hdrop] at hquote
      exact ⟨q, ds, rfl, hquote.2⟩
  · exact absurd h nofun

theorem literalPrefix?_drop {text : List Char} {letters : Nat} (h : literalPrefix? text = some letters)
    (hfeed : '\n' ∈ text) : letters ≤ text.length ∧ text.take letters = text.takeWhile isPrefixLetter ∧
      ∃ q ds, text.drop letters = q :: ds ∧ isQuote q = true ∧ '\n' ∈ ds := by
  obtain ⟨htake, q, ds, hdrop, hq⟩ := literalPrefix?_parts h
  have hle : letters ≤ text.length := by
    by_contra hlt
    rw [List.drop_eq_nil_of_le (Nat.le_of_not_le hlt)] at hdrop
    exact absurd hdrop nofun
  refine ⟨hle, htake, q, ds, hdrop, hq, ?_⟩
  have hsplit : '\n' ∈ text.takeWhile isPrefixLetter ∨ '\n' ∈ q :: ds := by
    rw [← htake, ← hdrop, ← List.mem_append, List.take_append_drop]
    exact hfeed
  rcases hsplit with hin | hin
  · exact absurd (List.all_eq_true.mp List.all_takeWhile '\n' hin) (by decide)
  · refine (List.mem_cons.mp hin).resolve_left ?_
    rintro rfl
    exact absurd hq nofun

/-- A text with a line feed begins with the same piece whatever text comes after it. -/
theorem leading_append {c : Char} {cs : List Char} (rest : List Char) (hfeed : '\n' ∈ c :: cs)
    (hclosed : ∀ n, literalPrefix? (c :: cs) = some n → Closes ((c :: cs).drop n)) {lexeme : Lexeme} {n : Nat}
    (h : leading c cs = .ok (lexeme, n)) : leading c (cs ++ rest) = .ok (lexeme, n) := by
  by_cases hc : c = '\n'
  · subst hc
    exact h
  · have hcs : '\n' ∈ cs := (List.mem_cons.mp hfeed).resolve_left (Ne.symm hc)
    have hletters := literalPrefix?_append_feed rest hfeed
    rw [List.cons_append] at hletters
    cases hliteral : literalPrefix? (c :: cs) with
    | some letters =>
      have hstarts := startsToken_of_literalPrefix? hliteral
      rw [leading_eq hstarts, hliteral] at h
      rw [leading_eq hstarts, hletters, hliteral]
      obtain ⟨hle, -, q, ds, hdrop, hq, hds⟩ := literalPrefix?_drop hliteral hfeed
      have hwhole : (c :: (cs ++ rest)).drop letters = q :: ds ++ rest := by
        rw [← List.cons_append, List.drop_append_of_le_length hle, hdrop]
      have htake : (c :: (cs ++ rest)).take letters = (c :: cs).take letters := by
        rw [← List.cons_append, List.take_append_of_le_length hle]
      dsimp only at h ⊢
      rw [hdrop] at h
      rw [hwhole, htake]
      cases hquoted : quotedLength? (q :: ds) with
      | none =>
        rw [hquoted] at h
        exact absurd h nofun
      | some m =>
        rw [hquoted] at h
        rw [quotedLength?_append rest hq hds (hdrop ▸ hclosed letters hliteral) hquoted]
        exact h
    | none =>
      have hbreak := lineBreakLength?_append_feed rest hfeed
      have hblanks := runLength_append_of_mem rest (p := isLineBlank) (by decide) hfeed
      have hcomment := runLength_append_of_mem rest (p := isWithinLine) (by decide) hfeed
      have hnumber := numberLength?_append_feed rest hfeed
      have hoperator := leading?_append_feed rest hfeed
      have hword : (c :: (cs ++ rest)).take (1 + runLength Text.continuesName cs) =
          (c :: cs).take (1 + runLength Text.continuesName cs) := by
        have hlt := runLength_lt (p := Text.continuesName) (by decide) hcs
        rw [← List.cons_append, List.take_append_of_le_length (by rw [List.length_cons]; omega)]
      rw [List.cons_append] at hbreak hblanks hcomment hnumber hoperator
      unfold leading at h ⊢
      simp only [hbreak, lineBreakLength?_append_feed rest hcs, hblanks, hcomment, hletters, hliteral, hnumber,
        runLength_append_of_mem rest (p := Text.continuesName) (by decide) hcs, hword, hoperator] at h ⊢
      exact h

end Lexeme

namespace Piece

/-! ## Whole texts -/

/-- Whether a piece is an empty string literal and the one after it begins with its quote once more. -/
def reopens (p q : Piece) : Bool :=
  match p.chars.dropWhile Lexeme.isPrefixLetter with
  | [a, b] => Lexeme.isQuote a && b == a && q.chars.head? == some a
  | _ => false

/-- Whether three quotes are closed wherever they begin a string literal. Where they are not, the first two of
them are an empty literal. -/
def QuotesClosed (pieces : List Piece) : Prop := pieces.IsChain fun p q => p.reopens q = false

instance (pieces : List Piece) : Decidable (QuotesClosed pieces) :=
  inferInstanceAs (Decidable (pieces.IsChain fun p q => p.reopens q = false))

example : QuotesClosed (split "'''a''' + \"\"".toList).1 ∧ ¬QuotesClosed (split "\"\"\"a\"\n".toList).1 := by
  decide +kernel

theorem head?_split {c : Char} {cs : List Char} (h : (split (c :: cs)).2 = none) :
    ∃ p ∈ (split (c :: cs)).1.head?, p.chars.head? = some c := by
  rw [split] at h ⊢
  split
  · rename_i fault hfault
    rw [hfault] at h
    cases h
  · exact ⟨_, rfl, rfl⟩

theorem split_cons {c : Char} {cs : List Char} {lexeme : Lexeme} {n : Nat} (h : Lexeme.leading c cs = .ok (lexeme, n)) :
    split (c :: cs) =
      (⟨lexeme, c :: cs.take (n - 1)⟩ :: (split (cs.drop (n - 1))).1, (split (cs.drop (n - 1))).2) := by
  rw [split, h]

theorem reopens_eq_true {letters : List Char} (hletters : ∀ c ∈ letters, Lexeme.isPrefixLetter c = true) {q : Char}
    (hq : Lexeme.isQuote q = true) {lexeme : Lexeme} {next : Piece} (hnext : next.chars.head? = some q) :
    reopens ⟨lexeme, letters ++ [q, q]⟩ next = true := by
  have hno : ¬Lexeme.isPrefixLetter q = true := by
    rcases Lexeme.isQuote_cases hq with rfl | rfl <;> decide
  have hdrop : (letters ++ [q, q]).dropWhile Lexeme.isPrefixLetter = [q, q] := by
    rw [List.dropWhile_append_of_pos hletters, List.dropWhile_cons_of_neg hno]
  simp [reopens, hdrop, hq, hnext]

/-- Three quotes that are left open give two pieces of which the second one begins with the third quote. -/
theorem closes_of_split {c : Char} {cs : List Char} {letters : Nat}
    (hwhole : (split (c :: cs)).2 = none) (hclosed : QuotesClosed (split (c :: cs)).1)
    (hliteral : Lexeme.literalPrefix? (c :: cs) = some letters) : Lexeme.Closes ((c :: cs).drop letters) := by
  intro q ds hdrop htriple
  by_contra hopen
  have hnone : Lexeme.longBodyLength? q (ds.drop 2) = none := by simpa using hopen
  obtain ⟨htake, q', ds', hdrop', hq⟩ := Lexeme.literalPrefix?_parts hliteral
  obtain ⟨rfl, rfl⟩ := List.cons.inj (hdrop.symm.trans hdrop')
  obtain ⟨es, rfl⟩ : ∃ es, ds = q :: q :: es := ⟨ds.drop 2, by
    have happend := List.take_append_drop 2 ds
    rw [htriple] at happend
    exact happend.symm⟩
  have hshort : Lexeme.shortBodyLength? q (q :: q :: es) = some 1 := by
    rw [Lexeme.shortBodyLength?_unescaped (Lexeme.ne_lineBreak_of_isQuote hq).2.2, if_pos (beq_self_eq_true q)]
  have hquoted : Lexeme.quotedLength? (q :: q :: q :: es) = some 2 := by
    rw [Lexeme.quotedLength?, if_pos (by simp), hnone, hshort]
    rfl
  have hleading : Lexeme.leading c cs = .ok (.token (Lexeme.literalKind ((c :: cs).take letters)), letters + 2) := by
    rw [Lexeme.leading_eq (Lexeme.startsToken_of_literalPrefix? hliteral), hliteral]
    simp only [hdrop, hquoted]
  have hchars : c :: cs.take (letters + 1) = (c :: cs).takeWhile Lexeme.isPrefixLetter ++ [q, q] := by
    rw [← List.take_succ_cons, show letters + 1 + 1 = letters + 2 from rfl, List.take_add, hdrop, htake]
    rfl
  have hrest : cs.drop (letters + 1) = q :: es := by
    rw [← List.drop_succ_cons (a := c), show letters + 1 + 1 = letters + 2 from rfl, ← List.drop_drop, hdrop]
    rfl
  rw [split_cons hleading, show letters + 2 - 1 = letters + 1 from rfl, hrest, hchars] at hwhole hclosed
  obtain ⟨next, hnext, hfirst⟩ := head?_split hwhole
  have hletters : ∀ d ∈ (c :: cs).takeWhile Lexeme.isPrefixLetter, Lexeme.isPrefixLetter d = true :=
    List.all_eq_true.mp List.all_takeWhile
  cases ((List.isChain_cons.mp hclosed).1 next hnext).symm.trans (reopens_eq_true hletters hq hfirst)

/-- A text with a line feed at its end is cut into its pieces also where more text comes after it. -/
theorem split_append {s : List Char} (hfeed : ∀ c ∈ s.getLast?, c = '\n') (hwhole : (split s).2 = none)
    (hclosed : QuotesClosed (split s).1) (t : List Char) :
    split (s ++ t) = ((split s).1 ++ (split t).1, (split t).2) := by
  induction s using split.induct with
  | case1 => simp only [split, List.nil_append]
  | case2 c cs fault h =>
    rw [split, h] at hwhole
    cases hwhole
  | case3 c cs lexeme n h _ _ _ ih =>
    have hmem : '\n' ∈ c :: cs := by
      obtain ⟨before, d, hlast⟩ := (List.eq_nil_or_concat' (c :: cs)).resolve_left (by rintro ⟨⟩)
      rw [hlast] at hfeed ⊢
      obtain rfl := hfeed d List.getLast?_concat
      exact List.mem_append_right _ List.mem_cons_self
    have hjoined := Lexeme.leading_append t hmem (fun letters hl => closes_of_split hwhole hclosed hl) h
    have hle : n - 1 ≤ cs.length := Nat.sub_le_of_le_add (Lexeme.leading_le h)
    rw [split_cons h] at hwhole hclosed ⊢
    rw [List.cons_append, split_cons hjoined, List.take_append_of_le_length hle, List.drop_append_of_le_length hle,
      ih ?_ hwhole (List.isChain_cons.mp hclosed).2]
    · rfl
    · intro d hd
      refine hfeed d ?_
      rw [Option.mem_def, List.getLast?_drop] at hd
      split at hd
      · cases hd
      · rw [List.getLast?_cons, Option.mem_def.mp hd]
        rfl

end Piece
end TypeWatch
