import TypeWatch.Proofs.Lexeme.Joined
import TypeWatch.Proofs.Lexeme.Quoted

/-! # Line breaks with carriage returns

Where each line feed of a text gets a carriage return before it, the text is cut into the same pieces, with their
carriage returns (`Piece.split_withReturns`). Literals in one quote on each side are the exception: there a
backslash keeps one character from ending the line, and the line feed is the second one (`Piece.continues`). -/
namespace TypeWatch
set_option autoImplicit false

namespace Text

/-- A text with a carriage return before each line feed. -/
def withReturns (cs : List Char) : List Char := cs.flatMap fun c => if c = '\n' then ['\r', '\n'] else [c]

section Returns

variable {c : Char} {cs : List Char} {p : Char → Bool}

@[simp] theorem withReturns_nil : withReturns [] = [] := rfl

@[simp] theorem withReturns_feed (cs : List Char) : withReturns ('\n' :: cs) = '\r' :: '\n' :: withReturns cs := rfl

theorem withReturns_cons (hc : c ≠ '\n') (cs : List Char) : withReturns (c :: cs) = c :: withReturns cs := by
  rw [withReturns, List.flatMap_cons, if_neg hc]
  rfl

@[simp] theorem withReturns_append (cs ds : List Char) : withReturns (cs ++ ds) = withReturns cs ++ withReturns ds :=
  List.flatMap_append

theorem withReturns_of_noFeed (h : '\n' ∉ cs) : withReturns cs = cs := by
  induction cs with
  | nil => rfl
  | cons c cs ih =>
    obtain ⟨hc, hcs⟩ := List.ne_and_not_mem_of_not_mem_cons h
    rw [withReturns_cons (Ne.symm hc), ih hcs]

theorem withReturns_eq_nil : withReturns cs = [] ↔ cs = [] := by
  cases cs with
  | nil => exact Iff.rfl
  | cons c cs =>
    by_cases hc : c = '\n'
    · subst hc
      exact iff_of_false nofun nofun
    · rw [withReturns_cons hc]
      exact iff_of_false nofun nofun

theorem lineFeeds_withReturns (cs : List Char) : lineFeeds (withReturns cs) = lineFeeds cs := by
  induction cs with
  | nil => rfl
  | cons c cs ih =>
    by_cases hc : c = '\n'
    · subst hc
      simpa [lineFeeds] using ih
    · rw [withReturns_cons hc]
      simpa [lineFeeds, hc] using ih

/-- Each line feed makes the text longer by one byte. -/
theorem byteLength_withReturns (cs : List Char) : byteLength (withReturns cs) = byteLength cs + lineFeeds cs := by
  induction cs with
  | nil => rfl
  | cons c cs ih =>
    by_cases hc : c = '\n'
    · subst hc
      have hsizes : ('\r' : Char).utf8Size = 1 ∧ ('\n' : Char).utf8Size = 1 := by decide
      simp only [withReturns_feed, byteLength_cons, ih, hsizes, lineFeeds, List.count_cons_self]
      omega
    · have hcount : lineFeeds (c :: cs) = lineFeeds cs := List.count_cons_of_ne hc
      rw [withReturns_cons hc, byteLength_cons, byteLength_cons, ih, hcount, Nat.add_assoc]

theorem lineCount_withReturns (cs : List Char) : lineCount (withReturns cs) = lineCount cs := by
  induction cs with
  | nil => rfl
  | cons c cs ih =>
    by_cases hc : c = '\n'
    · subst hc
      rw [withReturns_feed, lineCount_cons, lineCount_cons, lineCount_cons, ih]
      simp
    · rw [withReturns_cons hc, lineCount_cons, lineCount_cons, ih]
      simp only [withReturns_eq_nil]

/-- What holds of neither character of a line break tells the first characters of both texts apart in the same way. -/
theorem head?_withReturns (hp : p '\n' = p '\r') (cs : List Char) : (withReturns cs).head?.map p = cs.head?.map p := by
  cases cs with
  | nil => rfl
  | cons c cs =>
    by_cases hc : c = '\n'
    · subst hc
      exact congrArg some hp.symm
    · rw [withReturns_cons hc]
      rfl

theorem dropWhile_withReturns (hfeed : p '\n' = false) (hreturn : p '\r' = false) (cs : List Char) :
    (withReturns cs).dropWhile p = withReturns (cs.dropWhile p) := by
  induction cs with
  | nil => rfl
  | cons c cs ih =>
    by_cases hc : c = '\n'
    · subst hc
      simp [hfeed, hreturn]
    · rw [withReturns_cons hc, List.dropWhile_cons, List.dropWhile_cons]
      split
      · exact ih
      · rw [withReturns_cons hc]

theorem takeWhile_withReturns (hfeed : p '\n' = false) (hreturn : p '\r' = false) (cs : List Char) :
    (withReturns cs).takeWhile p = cs.takeWhile p := by
  induction cs with
  | nil => rfl
  | cons c cs ih =>
    by_cases hc : c = '\n'
    · subst hc
      simp [hfeed, hreturn]
    · rw [withReturns_cons hc, List.takeWhile_cons, List.takeWhile_cons, ih]

theorem runLength_withReturns (hfeed : p '\n' = false) (hreturn : p '\r' = false) (cs : List Char) :
    Lexeme.runLength p (withReturns cs) = Lexeme.runLength p cs := by
  rw [Lexeme.runLength, takeWhile_withReturns hfeed hreturn, Lexeme.runLength]

/-- Both texts begin with the same characters that are none of a line break. -/
theorem isPrefixOf_withReturns {ds : List Char} (hfeed : '\n' ∉ ds) (hreturn : '\r' ∉ ds) (cs : List Char) :
    ds.isPrefixOf (withReturns cs) = ds.isPrefixOf cs := by
  induction ds generalizing cs with
  | nil => simp
  | cons d ds ih =>
    obtain ⟨hd, hds⟩ := List.ne_and_not_mem_of_not_mem_cons hfeed
    obtain ⟨hd', hds'⟩ := List.ne_and_not_mem_of_not_mem_cons hreturn
    cases cs with
    | nil => rfl
    | cons c cs =>
      by_cases hc : c = '\n'
      · subst hc
        rw [withReturns_feed, List.isPrefixOf, List.isPrefixOf, beq_false_of_ne (Ne.symm hd),
          beq_false_of_ne (Ne.symm hd')]
        rfl
      · rw [withReturns_cons hc, List.isPrefixOf, List.isPrefixOf, ih hds hds']

end Returns

end Text

namespace Lexeme

open Text (withReturns withReturns_cons)

section Lengths

variable {cs : List Char}

theorem lineBreakLength?_of_ne {c : Char} (hfeed : c ≠ '\n') (hreturn : c ≠ '\r') (cs : List Char) :
    lineBreakLength? (c :: cs) = none := by
  unfold lineBreakLength?
  split
  · exact absurd (List.cons.inj ‹_›).1 hfeed
  · exact absurd (List.cons.inj ‹_›).1 hreturn
  · rfl

theorem lineBreakLength?_withReturns (hreturn : '\r' ∉ cs) :
    lineBreakLength? (withReturns cs) = (lineBreakLength? cs).map (· + 1) := by
  cases cs with
  | nil => rfl
  | cons c cs =>
    by_cases hc : c = '\n'
    · subst hc
      rfl
    · have hc' : c ≠ '\r' := Ne.symm (List.ne_of_not_mem_cons hreturn)
      rw [withReturns_cons hc, lineBreakLength?_of_ne hc hc', lineBreakLength?_of_ne hc hc']
      rfl

theorem numberLength?_withReturns (cs : List Char) : numberLength? (withReturns cs) = numberLength? cs := by
  by_cases hfeed : '\n' ∈ cs
  · obtain ⟨before, after, rfl, hbefore⟩ := List.eq_append_cons_of_mem hfeed
    rw [Text.withReturns_append, Text.withReturns_of_noFeed hbefore, Text.withReturns_feed]
    refine numberLength?_quiet (fun d hd => ?_) (quiet_feed _)
    obtain rfl := Option.some.inj hd
    rfl
  · rw [Text.withReturns_of_noFeed hfeed]

theorem leading?_withReturns (cs : List Char) : Operator.leading? (withReturns cs) = Operator.leading? cs := by
  unfold Operator.leading?
  refine List.find?_congr fun o _ => Text.isPrefixOf_withReturns (fun h => ?_) (fun h => ?_) cs
  all_goals exact absurd ((symbol_chars o).2 _ h).1 (by decide)

theorem literalPrefix?_withReturns (cs : List Char) : literalPrefix? (withReturns cs) = literalPrefix? cs := by
  simp only [literalPrefix?, drop_runLength]
  rw [Text.runLength_withReturns (by decide) (by decide), Text.dropWhile_withReturns (by decide) (by decide),
    Text.head?_withReturns (by decide)]

/-! ## String literals -/

theorem take_two_withReturns {q : Char} (hq : isQuote q = true) (cs : List Char) :
    ((withReturns cs).take 2 == [q, q]) = (cs.take 2 == [q, q]) := by
  obtain ⟨hfeed, hreturn, -⟩ := ne_lineBreak_of_isQuote hq
  rw [take_two_eq, take_two_eq, Text.isPrefixOf_withReturns (by simp [hfeed.symm]) (by simp [hreturn.symm])]

section Bodies

variable {q : Char} (hq : isQuote q = true)

include hq

/-- A backslash before a line feed keeps the carriage return from ending the literal, and the line feed does not
end it. -/
theorem longBodyLength?_withReturns (cs : List Char) :
    longBodyLength? q (withReturns cs) = (longBodyLength? q cs).map fun n => (withReturns (cs.take n)).length := by
  obtain ⟨hfeed, hreturn, hslash⟩ := ne_lineBreak_of_isQuote hq
  -- neither character of a line break closes the literal
  have hskip (ds : List Char) : longBodyLength? q ('\n' :: ds) = (longBodyLength? q ds).map (· + 1) ∧
      longBodyLength? q ('\r' :: ds) = (longBodyLength? q ds).map (· + 1) := by
    rw [longBodyLength?_unescaped (by decide), longBodyLength?_unescaped (by decide)]
    simp [hfeed.symm, hreturn.symm]
  induction cs using longBodyLength?.induct (q := q) with
  | case1 c cs ih =>
    rw [longBodyLength?, withReturns_cons (by decide), Option.map_map]
    by_cases hc : c = '\n'
    · subst hc
      rw [Text.withReturns_feed, longBodyLength?, (hskip _).1, ih, Option.map_map, Option.map_map]
      rfl
    · rw [withReturns_cons hc, longBodyLength?, ih, Option.map_map]
      congr 1
      funext n
      simp [withReturns_cons hc, withReturns_cons (show '\\' ≠ '\n' by decide)]
  | case2 c cs hesc hclose =>
    obtain ⟨hc, htwo⟩ := Bool.and_eq_true_iff.mp hclose
    obtain rfl : c = q := beq_iff_eq.mp hc
    have hthree : (c :: cs).take 3 = [c, c, c] := congrArg (c :: ·) (beq_iff_eq.mp htwo)
    rw [withReturns_cons hfeed, longBodyLength?_unescaped hslash, longBodyLength?_unescaped hslash,
      take_two_withReturns hq, if_pos hclose, if_pos hclose, Option.map_some, hthree,
      Text.withReturns_of_noFeed (by simp [hfeed.symm])]
    rfl
  | case3 c cs hesc hclose hback =>
    obtain rfl : c = '\\' := beq_iff_eq.mp hback
    cases cs with
    | nil =>
      have hnone : longBodyLength? q ['\\'] = none := by
        rw [longBodyLength?.eq_2 q _ _ hesc, if_neg hclose, if_pos hback]
      rw [Text.withReturns_of_noFeed (by decide), hnone, Option.map_none]
    | cons d ds => exact (hesc d ds rfl rfl).elim
  | case4 c cs hesc hclose hback ih =>
    have hno : c ≠ '\\' := fun h => hback (beq_iff_eq.mpr h)
    rw [longBodyLength?_unescaped hno, if_neg hclose, Option.map_map]
    by_cases hc : c = '\n'
    · subst hc
      rw [Text.withReturns_feed, (hskip _).2, (hskip _).1, ih, Option.map_map, Option.map_map]
      rfl
    · rw [withReturns_cons hc, longBodyLength?_unescaped hno, take_two_withReturns hq, if_neg hclose, ih,
        Option.map_map]
      congr 1
      funext n
      simp [withReturns_cons hc]
  | case5 => rfl

/-- A line feed ends the literal also where a backslash stands before the line break. -/
theorem shortBodyLength?_withReturns (cs : List Char) :
    shortBodyLength? q (withReturns cs) = (shortBodyLength? q cs).filter fun n => !(cs.take n).contains '\n' := by
  obtain ⟨hfeed, hreturn, hslash⟩ := ne_lineBreak_of_isQuote hq
  have hstop (ds : List Char) : shortBodyLength? q ('\n' :: ds) = none ∧ shortBodyLength? q ('\r' :: ds) = none := by
    rw [shortBodyLength?_unescaped (by decide), shortBodyLength?_unescaped (by decide)]
    simp [hfeed.symm, hreturn.symm]
  induction cs using shortBodyLength?.induct (q := q) with
  | case1 c cs ih =>
    rw [shortBodyLength?, withReturns_cons (by decide), Option.filter_map]
    by_cases hc : c = '\n'
    · subst hc
      rw [Text.withReturns_feed, shortBodyLength?, (hstop _).1]
      cases shortBodyLength? q cs <;> simp [Option.filter]
    · rw [withReturns_cons hc, shortBodyLength?, ih]
      congr 2
      funext n
      simp [hc, eq_comm]
  | case2 c cs hesc hclose =>
    obtain rfl : c = q := beq_iff_eq.mp hclose
    rw [withReturns_cons hfeed, shortBodyLength?_unescaped hslash, shortBodyLength?_unescaped hslash, if_pos hclose,
      if_pos hclose]
    simp [Option.filter, hfeed.symm]
  | case3 c cs hesc hclose hback =>
    rw [shortBodyLength?.eq_2 q c cs hesc, if_neg hclose, if_pos hback, Option.filter_none]
    have hends : (c = '\\' ∨ c = '\r') ∨ c = '\n' := by simpa using hback
    rcases hends with (rfl | rfl) | rfl
    · cases cs with
      | nil =>
        rw [Text.withReturns_of_noFeed (by decide), shortBodyLength?.eq_2 q _ _ hesc, if_neg hclose, if_pos hback]
      | cons d ds => exact (hesc d ds rfl rfl).elim
    · rw [withReturns_cons (by decide), (hstop _).2]
    · rw [Text.withReturns_feed, (hstop _).2]
  | case4 c cs hesc hclose hback ih =>
    have hc : c ≠ '\n' := fun h => hback (by simp [h])
    rw [shortBodyLength?.eq_2 q c cs hesc, if_neg hclose, if_neg hback, withReturns_cons hc,
      shortBodyLength?.eq_2 q c _ fun _ _ h _ => hback (by simp [h]), if_neg hclose, if_neg hback, ih,
      Option.filter_map]
    congr 2
    funext n
    simp [hc, eq_comm]
  | case5 => rfl

/-- The quoted part of a literal is as long as it was, with its carriage returns, if it is not in one quote on each
side and goes on after a line break. -/
theorem quotedLength?_withReturns (cs : List Char) : quotedLength? (q :: withReturns cs) =
    (quotedLength? (q :: cs)).bind fun n =>
      if cs.take 2 ≠ [q, q] ∧ '\n' ∈ (q :: cs).take n then none
      else some (withReturns ((q :: cs).take n)).length := by
  obtain ⟨hfeed, -, hslash⟩ := ne_lineBreak_of_isQuote hq
  rw [quotedLength?, quotedLength?, take_two_withReturns hq]
  by_cases htriple : cs.take 2 = [q, q]
  · rw [if_pos (beq_iff_eq.mpr htriple), if_pos (beq_iff_eq.mpr htriple)]
    obtain ⟨ds, rfl⟩ : ∃ ds, cs = q :: q :: ds := ⟨cs.drop 2, by
      rw [← List.take_append_drop 2 cs, htriple]
      rfl⟩
    have hshort (es : List Char) : shortBodyLength? q (q :: es) = some 1 := by
      rw [shortBodyLength?_unescaped hslash, if_pos (beq_self_eq_true q)]
    rw [withReturns_cons hfeed, withReturns_cons hfeed, hshort, hshort]
    simp only [List.drop_succ_cons, List.drop_zero, longBodyLength?_withReturns hq]
    cases longBodyLength? q ds with
    | none => simp [withReturns_cons hfeed]
    | some n => simp [withReturns_cons hfeed]
  · have hno : ¬(cs.take 2 == [q, q]) = true := fun h => htriple (beq_iff_eq.mp h)
    rw [if_neg hno, if_neg hno, shortBodyLength?_withReturns hq]
    cases hn : shortBodyLength? q cs with
    | none => rfl
    | some n =>
      obtain ⟨hpos, c, hc, -⟩ := shortBodyLength?_ends hfeed hn
      have hlength : n ≤ cs.length := Nat.le_of_pred_lt (List.getElem?_eq_some_iff.mp hc).1
      by_cases hin : '\n' ∈ cs.take n
      · simp [Option.filter, htriple, hin]
      · have hwhole : '\n' ∉ q :: cs.take n := List.not_mem_cons_of_ne_of_not_mem (Ne.symm hfeed) hin
        simp [Option.filter, htriple, hin, hfeed.symm, Text.withReturns_of_noFeed hwhole, hlength]

end Bodies

end Lengths

/-! ## Pieces -/

section Leading

variable {c : Char} {cs : List Char} {lexeme : Lexeme} {n : Nat}

/-- A piece that is neither a line break nor a literal has no line feed. -/
theorem noFeed_of_leads {text : List Char} (h : Leads text lexeme n) (hbreak : lexeme ≠ .lineBreak)
    (hcontinuation : lexeme ≠ .continuation) (hliteral : literalPrefix? text = none) : '\n' ∉ text.take n := by
  intro hin
  have hno {p : Char → Bool} (hall : ∀ d ∈ text.take n, p d = true) (hp : p '\n' = false) : False :=
    absurd ((hall _ hin).symm.trans hp) nofun
  cases h with
  | lineBreak => exact hbreak rfl
  | continuation => exact hcontinuation rfl
  | blanks =>
    rw [take_runLength] at hno
    exact hno (List.all_eq_true.mp List.all_takeWhile) (by decide)
  | comment =>
    rw [take_runLength] at hno
    exact hno (List.all_eq_true.mp List.all_takeWhile) (by decide)
  | literal hletters => exact absurd (hliteral.symm.trans hletters) nofun
  | number hn => exact hno (fun d hd => ((spells_number hn).number rfl).chars d hd) (by decide)
  | word cs hc =>
    rw [List.take_succ_cons, take_runLength] at hno
    exact hno (List.forall_mem_cons.mpr ⟨Text.continuesName_of_opensName _ hc, List.all_eq_true.mp List.all_takeWhile⟩)
      (by decide)
  | operator ho =>
    rw [take_of_leading? ho] at hin
    exact absurd ((symbol_chars _).2 _ hin).1 (by decide)

/-- Where a text begins within a line and with no literal, its first piece does not depend on how lines end. -/
theorem leading_withReturns_line (hreturn : '\r' ∉ c :: cs) (hc : c ≠ '\n')
    (hnext : c = '\\' → lineBreakLength? cs = none) (hliteral : literalPrefix? (c :: cs) = none) :
    leading c (withReturns cs) = leading c cs := by
  obtain ⟨hc', hcs⟩ := List.ne_and_not_mem_of_not_mem_cons hreturn
  have hcontinuation : (if c = '\\' then lineBreakLength? (withReturns cs) else none) =
      if c = '\\' then lineBreakLength? cs else none := by
    split
    · rw [lineBreakLength?_withReturns hcs, hnext ‹_›]
      rfl
    · rfl
  have hbreak := lineBreakLength?_of_ne hc (Ne.symm hc')
  have hblanks := Text.runLength_withReturns (p := isLineBlank) (by decide) (by decide) (c :: cs)
  have hcomment := Text.runLength_withReturns (p := isWithinLine) (by decide) (by decide) (c :: cs)
  have hletters := literalPrefix?_withReturns (c :: cs)
  have hnumber := numberLength?_withReturns (c :: cs)
  have hname := Text.runLength_withReturns (p := Text.continuesName) (by decide) (by decide) cs
  have hoperator := leading?_withReturns (c :: cs)
  have hword : (c :: withReturns cs).take (1 + runLength Text.continuesName cs) =
      (c :: cs).take (1 + runLength Text.continuesName cs) := by
    rw [Nat.add_comm, List.take_succ_cons, List.take_succ_cons, take_runLength, ← hname, take_runLength,
      Text.takeWhile_withReturns (by decide) (by decide)]
  rw [withReturns_cons hc] at hblanks hcomment hletters hnumber hoperator
  unfold leading
  simp only [hbreak, hcontinuation, hblanks, hcomment, hletters, hliteral, hnumber, hname, hword, hoperator]

end Leading

end Lexeme

namespace Piece

open Text (withReturns withReturns_cons)

/-- Whether a piece is a string literal in one quote on each side that goes on after a line break. -/
def continues (p : Piece) : Bool :=
  match p.chars.dropWhile Lexeme.isPrefixLetter with
  | q :: cs => Lexeme.isQuote q && cs.take 2 != [q, q] && cs.contains '\n'
  | [] => false

theorem continues_of_noFeed {p : Piece} (h : '\n' ∉ p.chars) : p.continues = false := by
  unfold continues
  split
  · rename_i q cs hdrop
    have hin : '\n' ∉ cs := fun hin => h ((List.dropWhile_suffix _).subset (hdrop ▸ List.mem_cons_of_mem q hin))
    simp [hin]
  · rfl

/-- A literal continues if it is not in three quotes and has a line feed. -/
theorem continues_quoted (lexeme : Lexeme) {letters ds : List Char}
    (hletters : ∀ c ∈ letters, Lexeme.isPrefixLetter c = true) {q : Char} (hq : Lexeme.isQuote q = true) {n : Nat}
    (hends : Lexeme.Ends (q :: ds) n) :
    continues ⟨lexeme, letters ++ (q :: ds).take n⟩ = true ↔ ds.take 2 ≠ [q, q] ∧ '\n' ∈ (q :: ds).take n := by
  obtain ⟨hfeed, -, -⟩ := Lexeme.ne_lineBreak_of_isQuote hq
  have hno : ¬Lexeme.isPrefixLetter q = true := by
    rcases Lexeme.isQuote_cases hq with rfl | rfl <;> decide
  obtain ⟨hpos, d, hd, hne⟩ := hends
  obtain ⟨k, rfl⟩ : ∃ k, n = k + 1 := ⟨n - 1, by omega⟩
  have hiff : continues ⟨lexeme, letters ++ (q :: ds).take (k + 1)⟩ = true ↔
      (ds.take k).take 2 ≠ [q, q] ∧ '\n' ∈ ds.take k := by
    simp [continues, List.dropWhile_append_of_pos hletters, hno, hq]
  rw [hiff, List.take_succ_cons, List.mem_cons, or_iff_right hfeed.symm]
  refine and_congr_left fun hin => ?_
  have hlong : 2 ≤ k := by
    by_contra hshort
    obtain rfl | rfl : k = 0 ∨ k = 1 := by omega
    · exact absurd hin nofun
    · cases ds with
      | nil => exact absurd hin nofun
      | cons e es =>
        obtain rfl : '\n' = e := List.mem_singleton.mp hin
        exact hne (Option.some.inj hd).symm
  rw [List.take_take, Nat.min_eq_left hlong]

/-- The piece with its carriage returns. -/
def withReturns (p : Piece) : Piece := ⟨p.lexeme, Text.withReturns p.chars⟩

end Piece

namespace Lexeme

open Text (withReturns withReturns_cons)

variable {c : Char} {cs : List Char} {lexeme : Lexeme} {n : Nat}

/-- The letters and the quote of a literal are those that it has with its carriage returns. -/
theorem parts_withReturns {letters : Nat} (h : literalPrefix? (c :: cs) = some letters) :
    ∃ front q ds, front.length = letters ∧ (∀ d ∈ front, isPrefixLetter d = true) ∧ isQuote q = true ∧
      c :: cs = front ++ q :: ds ∧ c :: withReturns cs = front ++ q :: withReturns ds := by
  obtain ⟨hc, -⟩ := (startsToken_iff c).mp (startsToken_of_literalPrefix? h)
  obtain ⟨htake, q, ds, hdrop, hq⟩ := literalPrefix?_parts h
  obtain ⟨hfeed, -, -⟩ := ne_lineBreak_of_isQuote hq
  have hparts : (c :: cs).take letters ++ q :: ds = c :: cs := by rw [← hdrop, List.take_append_drop]
  have hall : ∀ d ∈ (c :: cs).take letters, isPrefixLetter d = true := by
    rw [htake]
    exact List.all_eq_true.mp List.all_takeWhile
  have hfirst : '\n' ∉ (c :: cs).take letters := fun hin => absurd (hall _ hin) (by decide)
  have hlength : ((c :: cs).take letters).length = letters := by
    have hpos : 0 < ((c :: cs).drop letters).length := by rw [hdrop]; exact Nat.succ_pos _
    rw [List.length_drop] at hpos
    rw [List.length_take]
    omega
  have hreturned := congrArg withReturns hparts
  rw [Text.withReturns_append, Text.withReturns_of_noFeed hfirst, withReturns_cons hfeed,
    withReturns_cons hc] at hreturned
  exact ⟨_, q, ds, hlength, hall, hq, hparts.symm, hreturned.symm⟩

theorem leading_withReturns_literal {letters : Nat} (hliteral : literalPrefix? (c :: cs) = some letters)
    (h : leading c cs = .ok (lexeme, n)) : leading c (withReturns cs) =
      if Piece.continues ⟨lexeme, (c :: cs).take n⟩ then .error .unterminatedString
      else .ok (lexeme, (withReturns ((c :: cs).take n)).length) := by
  have hstarts := startsToken_of_literalPrefix? hliteral
  have hletters := literalPrefix?_withReturns (c :: cs)
  rw [withReturns_cons ((startsToken_iff c).mp hstarts).1] at hletters
  rw [leading_eq hstarts, hliteral] at h
  rw [leading_eq hstarts, hletters, hliteral]
  obtain ⟨front, q, ds, rfl, hall, hq, hparts, hparts'⟩ := parts_withReturns hliteral
  dsimp only at h ⊢
  rw [hparts, List.drop_left, List.take_left] at h
  rw [hparts, hparts', List.drop_left, List.take_left, quotedLength?_withReturns hq]
  cases hquoted : quotedLength? (q :: ds) with
  | none =>
    rw [hquoted] at h
    exact absurd h nofun
  | some m =>
    rw [hquoted] at h
    obtain ⟨rfl, rfl⟩ := Prod.mk.inj (Except.ok.inj h)
    have hends : Ends (q :: ds) m := quotedLength?_ends (by simpa using hq) hquoted
    have hcontinues := Piece.continues_quoted (token (literalKind front)) hall hq hends
    have hfirst : '\n' ∉ front := fun hin => absurd (hall _ hin) (by decide)
    rw [List.take_length_add_append, Option.bind_some]
    by_cases hboth : ds.take 2 ≠ [q, q] ∧ '\n' ∈ (q :: ds).take m
    · rw [if_pos hboth, if_pos (hcontinues.mpr hboth)]
    · rw [if_neg hboth, if_neg (fun h => hboth (hcontinues.mp h)), Text.withReturns_append,
        Text.withReturns_of_noFeed hfirst, List.length_append]

/-- The first piece of a text has its carriage returns in the other text. A literal that continues is no piece there. -/
theorem leading_withReturns (hreturn : '\r' ∉ c :: cs) (h : leading c cs = .ok (lexeme, n)) :
    ∃ d ds, withReturns (c :: cs) = d :: ds ∧ leading d ds =
      if Piece.continues ⟨lexeme, (c :: cs).take n⟩ then .error .unterminatedString
      else .ok (lexeme, (withReturns ((c :: cs).take n)).length) := by
  obtain ⟨hc', hcs⟩ := List.ne_and_not_mem_of_not_mem_cons hreturn
  by_cases hc : c = '\n'
  · subst hc
    obtain ⟨rfl, rfl⟩ := Prod.mk.inj (Except.ok.inj h)
    exact ⟨_, _, rfl, rfl⟩
  refine ⟨c, withReturns cs, withReturns_cons hc cs, ?_⟩
  cases hliteral : literalPrefix? (c :: cs) with
  | some letters => exact leading_withReturns_literal hliteral h
  | none =>
    by_cases hnext : c = '\\' ∧ ∃ ds, cs = '\n' :: ds
    · obtain ⟨rfl, ds, rfl⟩ := hnext
      obtain ⟨rfl, rfl⟩ := Prod.mk.inj (Except.ok.inj h)
      rfl
    · have hnone (hslash : c = '\\') : lineBreakLength? cs = none := by
        cases cs with
        | nil => rfl
        | cons d ds =>
          refine lineBreakLength?_of_ne ?_ (Ne.symm (List.ne_of_not_mem_cons hcs)) ds
          rintro rfl
          exact hnext ⟨hslash, ds, rfl⟩
      have hfeed : '\n' ∉ (c :: cs).take n := by
        have hleads := leads_of_leading h
        refine noFeed_of_leads hleads ?_ ?_ hliteral
        · rintro rfl
          cases hleads with
          | lineBreak hn => exact absurd ((lineBreakLength?_of_ne hc (Ne.symm hc') cs).symm.trans hn) nofun
        · rintro rfl
          cases hleads with
          | continuation hn => exact absurd ((hnone rfl).symm.trans hn) nofun
      rw [leading_withReturns_line hreturn hc hnone hliteral, h, Piece.continues_of_noFeed hfeed,
        Text.withReturns_of_noFeed hfeed, List.length_take, Nat.min_eq_left (leading_le h)]
      rfl

theorem leading_pos (h : leading c cs = .ok (lexeme, n)) : 0 < n := by
  cases leads_of_leading h with
  | lineBreak hn => exact (lineBreakLength?_feed hn).1
  | continuation | word => exact Nat.succ_pos _
  | blanks hc =>
    rw [runLength_cons_of_pos hc]
    exact Nat.succ_pos _
  | comment =>
    rw [runLength_cons_of_pos (by decide)]
    exact Nat.succ_pos _
  | literal hletters hn => exact (literal_ends hletters hn).1
  | number hn => exact (numberLength?_ends hn).1
  | operator => exact List.length_pos_of_ne_nil (symbol_chars _).1

end Lexeme

namespace Piece

/-! ## Whole texts -/

/-- A text is cut into its first piece and the pieces of the rest. -/
theorem split_of_leading {c : Char} {cs : List Char} {lexeme : Lexeme} {n : Nat}
    (h : Lexeme.leading c cs = .ok (lexeme, n)) : split (c :: cs) =
      (⟨lexeme, (c :: cs).take n⟩ :: (split ((c :: cs).drop n)).1, (split ((c :: cs).drop n)).2) := by
  obtain ⟨k, rfl⟩ : ∃ k, n = k + 1 := Nat.exists_eq_succ_of_ne_zero (Nat.ne_of_gt (Lexeme.leading_pos h))
  rw [split_cons h]
  rfl

/-- A text with carriage returns is cut into the pieces that it has without them, if no literal in one quote on each
side continues. Such a literal is never closed there. -/
theorem split_withReturns {cs : List Char} (hreturn : '\r' ∉ cs) (hwhole : (split cs).2 = none) :
    ((∀ p ∈ (split cs).1, p.continues = false) →
      split (Text.withReturns cs) = ((split cs).1.map withReturns, none)) ∧
    ((∃ p ∈ (split cs).1, p.continues = true) → (split (Text.withReturns cs)).2 = some .unterminatedString) := by
  induction cs using split.induct with
  | case1 =>
    refine ⟨fun _ => by simp [split], ?_⟩
    rintro ⟨p, hp, -⟩
    exact absurd hp (by simp [split])
  | case2 c cs fault h =>
    rw [split, h] at hwhole
    cases hwhole
  | case3 c cs lexeme n h _ _ _ ih =>
    obtain ⟨d, ds, htext, hleading⟩ := Lexeme.leading_withReturns hreturn h
    have hrest : cs.drop (n - 1) = (c :: cs).drop n := by
      rw [← List.drop_succ_cons (a := c), Nat.sub_add_cancel (Lexeme.leading_pos h)]
    rw [hrest] at ih
    rw [split_of_leading h] at hwhole ⊢
    obtain ⟨hkept, hlost⟩ := ih (fun hin => hreturn (List.mem_of_mem_drop hin)) hwhole
    cases hcontinues : continues ⟨lexeme, (c :: cs).take n⟩ with
    | true =>
      refine ⟨fun hall => ?_, fun _ => ?_⟩
      · cases hcontinues.symm.trans (hall _ List.mem_cons_self)
      · rw [htext, split, hleading, hcontinues]
        rfl
    | false =>
      rw [hcontinues] at hleading
      have hparts : Text.withReturns ((c :: cs).take n) ++ Text.withReturns ((c :: cs).drop n) = d :: ds := by
        rw [← Text.withReturns_append, List.take_append_drop, htext]
      have hsplit : split (Text.withReturns (c :: cs)) =
          (withReturns ⟨lexeme, (c :: cs).take n⟩ :: (split (Text.withReturns ((c :: cs).drop n))).1,
            (split (Text.withReturns ((c :: cs).drop n))).2) := by
        rw [htext, split_of_leading hleading, ← hparts, List.take_left, List.drop_left]
        rfl
      rw [hsplit]
      refine ⟨fun hall => ?_, ?_⟩
      · rw [hkept fun p hp => hall p (List.mem_cons_of_mem _ hp)]
        rfl
      · rintro ⟨p, hp, hp'⟩
        rcases List.mem_cons.mp hp with rfl | hp
        · cases hcontinues.symm.trans hp'
        · exact hlost ⟨p, hp, hp'⟩

/-- Whether a piece is a line break, one that does not count, or a literal. -/
def Breaks (p : Piece) : Prop :=
  p.lexeme = .lineBreak ∨ p.lexeme = .continuation ∨ ∃ kind, p.lexeme = .token kind ∧ kind.isString = true

/-- No other pieces have line feeds. -/
theorem breaks_of_split (cs : List Char) : ∀ p ∈ (split cs).1, '\n' ∈ p.chars → p.Breaks := by
  induction cs using split.induct with
  | case1 => simp [split]
  | case2 c cs fault h => simp [split, h]
  | case3 c cs lexeme n h _ _ _ ih =>
    rw [split_cons h]
    refine List.forall_mem_cons.mpr ⟨fun hfeed => ?_, ih⟩
    have hchars : c :: cs.take (n - 1) = (c :: cs).take n := by
      rw [← List.take_succ_cons, Nat.sub_add_cancel (Lexeme.leading_pos h)]
    by_contra hno
    obtain ⟨hbreak, hother⟩ := not_or.mp hno
    cases hliteral : Lexeme.literalPrefix? (c :: cs) with
    | none =>
      exact Lexeme.noFeed_of_leads (Lexeme.leads_of_leading h) hbreak (not_or.mp hother).1 hliteral (hchars ▸ hfeed)
    | some letters =>
      rw [Lexeme.leading_eq (Lexeme.startsToken_of_literalPrefix? hliteral), hliteral] at h
      dsimp only at h
      split at h
      · obtain ⟨rfl, -⟩ := Prod.mk.inj (Except.ok.inj h)
        exact hno (Or.inr (Or.inr ⟨_, rfl, Lexeme.isString_literalKind _⟩))
      · cases h

end Piece
end TypeWatch
