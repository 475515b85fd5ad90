import TypeWatch.Proofs.Token.Content

/-! # Clean texts

What follows some words in a clean text is clean, and the words are plain (`Cuts.clean`). A number, a reserved
word or a sign that is no part of plain expressions begins no clean text. -/
namespace TypeWatch
set_option autoImplicit false

open Lexeme (Edge)

theorem Cuts.clean {cs rest : List Char} {ws : List Word} (h : Cuts cs ws rest) (hclean : Clean (cs ++ rest)) :
    (∀ w ∈ ws, w.1.isPlain = true) ∧ Clean rest := by
  obtain ⟨ps, hps, rfl, -⟩ := h
  obtain ⟨hwhole, hplain⟩ := hclean
  rw [hps] at hwhole hplain
  refine ⟨fun w hw => ?_, hwhole, fun p hp => hplain p (List.mem_append_right _ hp)⟩
  obtain ⟨p, hp, hword⟩ := List.mem_filterMap.mp hw
  exact hplain p (List.mem_append_left _ hp) w hword

/-! ## Blanks -/

theorem split_blank {d : Char} (hd : Lexeme.isLineBlank d = true) (cs : List Char) : ∃ p : Piece,
    p.word? = none ∧ Piece.split (d :: cs) = (p :: (Piece.split (cs.dropWhile Lexeme.isLineBlank)).1,
      (Piece.split (cs.dropWhile Lexeme.isLineBlank)).2) := by
  have hleading : Lexeme.leading d cs = .ok (.blanks, 1 + Lexeme.runLength Lexeme.isLineBlank cs) := by
    have hcases : d = ' ' ∨ d = '\t' ∨ d = '\x0c' := by
      simpa [Lexeme.isLineBlank, or_assoc] using hd
    rcases hcases with rfl | rfl | rfl <;>
      simp [Lexeme.leading, Lexeme.lineBreakLength?, Lexeme.isLineBlank, Lexeme.runLength, Nat.add_comm]
  refine ⟨⟨.blanks, d :: cs.take (Lexeme.runLength Lexeme.isLineBlank cs)⟩, rfl, ?_⟩
  rw [Piece.split, hleading]
  simp only [Nat.add_sub_cancel_left, Lexeme.drop_runLength]

theorem Clean.of_blank {cs : List Char} (h : Clean (' ' :: cs)) : Clean cs := by
  have hrest : Clean (cs.dropWhile Lexeme.isLineBlank) := by
    obtain ⟨p, -, hsplit⟩ := split_blank (d := ' ') rfl cs
    obtain ⟨hwhole, hplain⟩ := h
    rw [hsplit] at hwhole hplain
    exact ⟨hwhole, fun q hq => hplain q (List.mem_cons_of_mem p hq)⟩
  cases cs with
  | nil => exact hrest
  | cons d ds =>
    by_cases hd : Lexeme.isLineBlank d = true
    · obtain ⟨p, hp, hsplit⟩ := split_blank hd ds
      rw [List.dropWhile_cons_of_pos hd] at hrest
      obtain ⟨hwhole, hplain⟩ := hrest
      constructor
      · rw [hsplit]
        exact hwhole
      · rw [hsplit]
        refine List.forall_mem_cons.mpr ⟨fun w hw => ?_, hplain⟩
        rw [hp] at hw
        exact absurd hw nofun
    · rwa [List.dropWhile_cons_of_neg hd] at hrest

/-! ## Tokens that are not plain -/

theorem not_clean_of_leading {c : Char} {cs : List Char}
    (h : ∀ kind n, Lexeme.leading c cs = .ok (.token kind, n) → kind.isPlain = false)
    (hc : Lexeme.startsToken c = true) : ¬Clean (c :: cs) := by
  rintro ⟨hwhole, hplain⟩
  rw [Piece.split] at hwhole hplain
  cases hleading : Lexeme.leading c cs with
  | error fault =>
    rw [hleading] at hwhole
    cases hwhole
  | ok piece =>
    obtain ⟨lexeme, n⟩ := piece
    obtain ⟨kind, rfl⟩ := Lexeme.token_of_startsToken hc hleading
    rw [hleading] at hplain
    have hkind := hplain _ List.mem_cons_self _ rfl
    cases (h kind n hleading).symm.trans hkind

theorem not_clean_keyword {k : Keyword} (hk : (TokenKind.word k).isPlain = false) {rest : List Char}
    (hrest : Edge rest) : ¬Clean (k.spelling.toList ++ rest) := by
  intro h
  have hplain := ((cuts_keyword k hrest).clean h).1 _ List.mem_cons_self
  cases hk.symm.trans hplain

/-- The characters that no plain operator begins with. -/
def signs : List Char :=
  ['*', '/', '+', '-', '~', '<', '>', '=', '!', '%', '@', '&', '|', '^', ':', '\x7b', '\x7d']

theorem not_clean_sign {c : Char} (hc : c ∈ signs) (cs : List Char) : ¬Clean (c :: cs) := by
  have hsigns : ∀ c ∈ signs, Lexeme.startsToken c = true ∧ Lexeme.isPrefixLetter c = false ∧
      Lexeme.isQuote c = false ∧ c.isDigit = false ∧ c ≠ '.' ∧ Text.opensName c = false ∧
      ∀ o ∈ Operator.all, o.symbol.head? = some c → (TokenKind.op o).isPlain = false :=
    Lexeme.forall_of_all (by decide)
  obtain ⟨hstarts, hletter, hquote, hdigit, hpoint, hname, hplain⟩ := hsigns c hc
  refine not_clean_of_leading (fun kind n h => ?_) hstarts
  rw [Lexeme.leading_eq hstarts, Lexeme.literalPrefix?_cons_eq_none cs hletter hquote] at h
  simp only [Lexeme.numberLength?_eq_none hdigit (fun heq => absurd heq hpoint), hname, Bool.false_eq_true,
    if_false] at h
  split at h
  · rename_i o ho
    obtain ⟨hkind, -⟩ := Prod.mk.inj (Except.ok.inj h)
    obtain rfl := Lexeme.token.inj hkind
    rw [Operator.leading?] at ho
    refine hplain o (List.mem_of_find?_eq_some ho) ?_
    have hprefix := List.find?_some ho
    obtain ⟨t, ht⟩ := List.isPrefixOf_iff_prefix.mp hprefix
    have hne : o.symbol ≠ [] := by cases o <;> exact List.cons_ne_nil _ _
    obtain ⟨d, ds, hsymbol⟩ := List.exists_cons_of_ne_nil hne
    rw [hsymbol, List.cons_append] at ht
    rw [hsymbol, List.head?_cons, (List.cons.inj ht).1]
  · cases h

theorem numberLength?_isSome {c : Char} {cs : List Char}
    (h : c.isDigit = true ∨ c = '.' ∧ ∃ d ds, cs = d :: ds ∧ d.isDigit = true) :
    (Lexeme.numberLength? (c :: cs)).isSome = true := by
  have hmantissa : (Lexeme.mantissaLength? (c :: cs)).isSome = true := by
    rcases h with hc | ⟨rfl, d, ds, rfl, hd⟩
    · unfold Lexeme.mantissaLength?
      split
      · rename_i hcons
        obtain ⟨rfl, -⟩ := List.cons.inj hcons
        exact absurd hc (by decide)
      · rename_i hcons
        obtain ⟨rfl, rfl⟩ := List.cons.inj hcons
        rw [if_pos hc]
        dsimp only
        split <;> rfl
      · rename_i hcons
        exact absurd hcons nofun
    · simp [Lexeme.mantissaLength?, hd]
  obtain ⟨m, hm⟩ := Option.isSome_iff_exists.mp hmantissa
  rw [Lexeme.numberLength?, hm]
  cases Lexeme.markedLength? (c :: cs) <;> rfl

theorem not_clean_number {literal : List Char} (h : Lexeme.IsNumber literal) (rest : List Char) :
    ¬Clean (literal ++ rest) := by
  obtain ⟨c, cs, rfl⟩ := List.exists_cons_of_ne_nil (List.length_pos_iff.mp h.pos)
  have hsome : (Lexeme.numberLength? (c :: (cs ++ rest))).isSome = true := by
    refine numberLength?_isSome (h.first.imp_right fun hpoint => ⟨hpoint, ?_⟩)
    subst hpoint
    obtain ⟨d, ds, rfl, hd⟩ := h.fraction
    exact ⟨d, ds ++ rest, rfl, hd⟩
  obtain ⟨n, hn⟩ := Option.isSome_iff_exists.mp hsome
  obtain ⟨hstarts, hletter, hquote⟩ := h.starts
  rw [List.cons_append]
  refine not_clean_of_leading (fun kind m hleading => ?_) hstarts
  rw [Lexeme.leading_eq hstarts, Lexeme.literalPrefix?_cons_eq_none _ hletter hquote, hn] at hleading
  obtain ⟨hkind, -⟩ := Prod.mk.inj (Except.ok.inj hleading)
  obtain rfl := Lexeme.token.inj hkind
  rfl

end TypeWatch
